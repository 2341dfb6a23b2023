import AeProxy.Server.TcpServer

/-! `TcpClient`: its attempts to connect, the connection of the last that succeeded, and what it
reports. A callback of the user is always run last, so what it calls is an event of its own. -/
namespace AeProxy
open Lib

namespace TcpClient

inductive ConnectStatus where
  | connectSuccess
  | connectFail
  | connectClose
  deriving DecidableEq

/-- What runs when the connection has been closed: `on_close`, or the lambda of `close` around the
callback it was given, if any. -/
inductive CloseCallback where
  | onClose
  | user (callback : Option Nat)
  deriving DecidableEq

/-- What the client does, with the number of the attempt it is about or of the call of `close`. -/
inductive Action where
  | connect (attempt : Nat)
  | uvClose (attempt : Nat)
  | status (attempt : Nat) (status : ConnectStatus)
  | message (attempt : Nat)
  | userClosed (call : Nat)
  deriving DecidableEq

/-- `accepted` is what `uv_tcp_connect` returns, `success` what its request reports. -/
inductive Event where
  | connect (accepted : Bool)
  | connectDone (attempt : Nat) (success : Bool)
  | read (attempt : Nat) (input : TcpServer.Input)
  | shutdownDone (attempt : Nat)
  | closed (attempt : Nat)
  | close (callback : Bool)
  deriving DecidableEq

/-- The socket of an attempt with its outstanding requests, whether its closing ends in
`after_connect_fail`, and the connection made on it. -/
structure Socket where
  connecting : Bool
  failed : Bool
  shutdowns : Nat
  connection : TcpConnection CloseCallback

/-- Of a socket without a connection object only the handle counts. -/
def Socket.raw (connecting : Bool) (handle : Phase) : Socket :=
  ⟨connecting, false, 0, ⟨"", false, false, false, none, handle⟩⟩

def Socket.handle (self : Socket) : Phase := self.connection.handle

end TcpClient
open TcpClient

/-- The client's fields, and the sockets it has made, one for each attempt; a socket it has let go
of is still served by libuv. -/
structure TcpClient where
  connection_ : Option Nat
  connectCallback_ : Bool
  onMessageCallback_ : Bool
  socket : Nat → Socket
  attempts : Nat
  closes : Nat

namespace TcpClient

def new (connectCallback onMessageCallback : Bool) : TcpClient :=
  ⟨none, connectCallback, onMessageCallback, fun _ => .raw false .closed, 0, 0⟩

/-- The socket of the last attempt. -/
def socket_ (self : TcpClient) : Nat := self.attempts - 1

def setSocket (self : TcpClient) (i : Nat) (socket : Socket) : TcpClient :=
  { self with socket := Function.update self.socket i socket }

def setConnection (self : TcpClient) (i : Nat) (connection : TcpConnection CloseCallback) :
    TcpClient :=
  self.setSocket i { self.socket i with connection := connection }

def runConnectCallback (self : TcpClient) (attempt : Nat) (status : ConnectStatus) : List Action :=
  if self.connectCallback_ then [.status attempt status] else []

/-- What `uv_tcp_connect` returns is dropped. The handle of the attempt before is freed if nothing else
points to it; what is proved of a run that goes on behind that while libuv serves it leaves such
attempts out. -/
def connect (self : TcpClient) (accepted : Bool) : TcpClient × List Action :=
  ({ self.setSocket self.attempts (.raw accepted .opened) with attempts := self.attempts + 1 },
    [.connect self.attempts])

/-- The connection is made on the last socket, whichever request has completed, and takes the data
of the handle from the client, which is lost to a closing after a failure. -/
def onConnect (self : TcpClient) : Bool → TcpClient × List Action
  | true =>
    let i := self.socket_
    ({ self.setSocket i { self.socket i with
        failed := false
        connection := { TcpConnection.new "" with handle := (self.socket i).handle } } with
        connection_ := some i }, self.runConnectCallback i .connectSuccess)
  | false =>
    let i := self.socket_
    if (self.socket i).handle.isClosing = false then
      (self.setSocket i { self.socket i with
        failed := true, connection := { (self.socket i).connection with handle := .closing } },
        [.uvClose i])
    else (self, [])

def closeComplete (self : TcpClient) (i : Nat) : Option CloseCallback → List Action
  | some .onClose => self.runConnectCallback i .connectClose
  | some (.user (some call)) => [.userClosed call]
  | some (.user none) => []
  | none => []

/-- `TcpConnection::close`. -/
def closeHandle (self : TcpClient) (i : Nat) (callback : CloseCallback) : TcpClient × List Action :=
  let (connection, effect) := (self.socket i).connection.close (some callback)
  match effect with
  | .uvClose => (self.setConnection i connection, [.uvClose i])
  | .complete callback => (self.setConnection i connection, self.closeComplete i callback)

def onConnectClose (self : TcpClient) : TcpClient × List Action :=
  match self.connection_ with
  | some i => self.closeHandle i .onClose
  | none => (self, [])

/-- `TcpConnection::on_socket_close`, the callback being the client's `on_connect_close`. -/
def onSocketClose (self : TcpClient) (i : Nat) : TcpClient × List Action :=
  if (self.socket i).connection.onConnectCloseCallback then self.onConnectClose else (self, [])

/-- The calls are numbered. -/
def close (self : TcpClient) (callback : Bool) : TcpClient × List Action :=
  let call := if callback then some self.closes else none
  let self := { self with closes := self.closes + 1 }
  match self.connection_ with
  | some i => self.closeHandle i (.user call)
  | none => (self, self.closeComplete 0 (some (.user call)))

/-- `TcpConnection::on_mesage_receive`. -/
def onMesageReceive (self : TcpClient) (i : Nat) : TcpServer.Input → TcpClient × List Action
  | .data =>
    (self, if (self.socket i).connection.onMessageCallback && self.onMessageCallback_ then
      [.message i] else [])
  | .error =>
    (self.setConnection i ((self.socket i).connection.setConnectStatus false)).onSocketClose i
  | .eof accepted =>
    let self := self.setConnection i ((self.socket i).connection.setConnectStatus false)
    if accepted then
      (self.setSocket i { self.socket i with shutdowns := (self.socket i).shutdowns + 1 }, [])
    else (self, [])

/-- libuv has closed a socket: `after_connect_fail`, or `TcpConnection::close_complete`. -/
def onClosed (self : TcpClient) (i : Nat) : TcpClient × List Action :=
  let (connection, callback) := (self.socket i).connection.onClosed
  let client := self.setConnection i connection
  if (self.socket i).failed then (client, client.runConnectCallback i .connectFail)
  else (client, client.closeComplete i callback)

/-- The request to connect has completed. -/
def requestDone (self : TcpClient) (i : Nat) : TcpClient :=
  self.setSocket i { self.socket i with connecting := false }

/-- A connect request succeeds only on a socket that is open, and is reported, as a shutdown
request is, before the closing. -/
def step : Machine TcpClient Event Action := fun self event =>
  match event with
  | .connect accepted => some (self.connect accepted)
  | .connectDone i success =>
    if (self.socket i).connecting = true ∧ (success = true → (self.socket i).handle = .opened) then
      some ((self.requestDone i).onConnect success)
    else none
  | .read i input =>
    if (self.socket i).handle ≠ .closed then some (self.onMesageReceive i input) else none
  | .shutdownDone i =>
    if 0 < (self.socket i).shutdowns then
      some ((self.setSocket i { self.socket i with
        shutdowns := (self.socket i).shutdowns - 1 }).onSocketClose i)
    else none
  | .closed i =>
    if (self.socket i).handle = .closing ∧ (self.socket i).shutdowns = 0 ∧
        (self.socket i).connecting = false then
      some (self.onClosed i)
    else none
  | .close callback => some (self.close callback)

section fields
variable (s : TcpClient) (i : Nat) (socket : Socket)

@[simp] theorem setSocket_self : (s.setSocket i socket).socket i = socket :=
  Function.update_self ..

@[simp] theorem requestDone_last : (s.requestDone i).socket_ = s.socket_ := rfl

@[simp] theorem setSocket_last : (s.setSocket i socket).socket_ = s.socket_ := rfl

@[simp] theorem setSocket_eq_self : s.setSocket i (s.socket i) = s :=
  congrArg (fun sockets => { s with socket := sockets }) (Function.update_eq_self ..)

@[simp] theorem setSocket_setSocket (other : Socket) :
    (s.setSocket i other).setSocket i socket = s.setSocket i socket :=
  congrArg (fun sockets => { s with socket := sockets }) (Function.update_idem ..)

theorem setSocket_of_ne {j : Nat} (h : j ≠ i) : (s.setSocket i socket).socket j = s.socket j :=
  Function.update_of_ne h ..

end fields

section closing
variable {s : TcpClient} {i : Nat}

theorem closeHandle_of_opened (h : (s.socket i).handle = .opened) (callback : CloseCallback) :
    s.closeHandle i callback =
      (s.setConnection i { TcpConnection.closeSlot.fill (s.socket i).connection (some callback) with
        handle := .closing }, [.uvClose i]) := by
  rw [closeHandle, TcpConnection.close_of_opened h]

theorem closeHandle_of_not_opened (h : (s.socket i).handle ≠ .opened) (callback : CloseCallback) :
    s.closeHandle i callback =
      (s.setConnection i (TcpConnection.closeSlot.fill (s.socket i).connection (some callback)),
        s.closeComplete i (some callback)) := by
  rw [closeHandle, TcpConnection.close_of_not_opened h]

theorem closeHandle_fst (s : TcpClient) (i : Nat) (callback : CloseCallback) :
    (s.closeHandle i callback).1 =
      s.setConnection i ((s.socket i).connection.close (some callback)).1 := by
  rw [closeHandle]
  rcases (s.socket i).connection.close (some callback) with ⟨connection, _ | _⟩ <;> rfl

theorem onClosed_of_failed (h : (s.socket i).failed = true) :
    s.onClosed i = (s.setConnection i { (s.socket i).connection with handle := .closed },
      s.runConnectCallback i .connectFail) := if_pos h

theorem onClosed_of_not_failed (h : (s.socket i).failed = false) :
    s.onClosed i = (s.setConnection i { (s.socket i).connection with handle := .closed },
      s.closeComplete i (s.socket i).connection.closeCompleteCallback) :=
  if_neg (ne_true_of_eq_false h)

theorem onClosed_fst (s : TcpClient) (i : Nat) :
    (s.onClosed i).1 = s.setConnection i { (s.socket i).connection with handle := .closed } := by
  cases hf : (s.socket i).failed with
  | true => rw [onClosed_of_failed hf]
  | false => rw [onClosed_of_not_failed hf]

theorem closeComplete_user (s : TcpClient) (i : Nat) (callback : Option Nat) :
    s.closeComplete i (some (.user callback)) = (callback.map .userClosed).toList := by
  cases callback <;> rfl

theorem close_of_some (h : s.connection_ = some i) (callback : Bool) :
    s.close callback = { s with closes := s.closes + 1 }.closeHandle i
      (.user (if callback then some s.closes else none)) := by
  cases s
  cases h
  rfl

theorem close_of_none (h : s.connection_ = none) (callback : Bool) :
    s.close callback = ({ s with closes := s.closes + 1 },
      ((if callback then some s.closes else none).map .userClosed).toList) := by
  cases s
  cases h
  cases callback <;> rfl

end closing

/-- The sockets differ in what has been read, and in the shutdowns under way, alone. -/
structure Socket.Similar (socket other : Socket) : Prop where
  connecting : socket.connecting = other.connecting
  failed : socket.failed = other.failed
  handle : socket.handle = other.handle
  onMessageCallback : socket.connection.onMessageCallback = other.connection.onMessageCallback
  onConnectCloseCallback :
    socket.connection.onConnectCloseCallback = other.connection.onConnectCloseCallback
  closeCompleteCallback :
    socket.connection.closeCompleteCallback = other.connection.closeCompleteCallback

/-- What an event can do. -/
inductive Does (s : TcpClient) : Event → TcpClient × List Action → Prop
  | connect (accepted : Bool) : Does s (.connect accepted) (s.connect accepted)
  | connectDone {i : Nat} {success : Bool} (hc : (s.socket i).connecting = true)
      (ho : success = true → (s.socket i).handle = .opened) :
      Does s (.connectDone i success)
        ((s.requestDone i).onConnect success)
  | message {i : Nat} (hm : (s.socket i).connection.onMessageCallback = true) :
      Does s (.read i .data) (s, [.message i])
  | stream {i : Nat} {event : Event}
      (he : (∃ input, event = .read i input) ∨ event = .shutdownDone i) {socket : Socket}
      (hs : socket.Similar (s.socket i)) : Does s event (s.setSocket i socket, [])
  | lost {i j : Nat} {event : Event}
      (he : (∃ input, event = .read i input) ∨ event = .shutdownDone i) {socket : Socket}
      (hs : socket.Similar (s.socket i))
      (hc : (s.socket i).connection.onConnectCloseCallback = true) (hj : s.connection_ = some j) :
      Does s event ((s.setSocket i socket).closeHandle j .onClose)
  | closed {i : Nat} (hc : (s.socket i).handle = .closing) (hi : (s.socket i).connecting = false) :
      Does s (.closed i) (s.onClosed i)
  | close (callback : Bool) : Does s (.close callback) (s.close callback)

section does
variable {s : TcpClient} {event : Event} {r : TcpClient × List Action}

theorem does_onSocketClose {i : Nat} (he : (∃ input, event = .read i input) ∨ event = .shutdownDone i)
    {socket : Socket} (hs : socket.Similar (s.socket i)) :
    Does s event ((s.setSocket i socket).onSocketClose i) := by
  rw [onSocketClose, setSocket_self]
  split
  next hc =>
    rw [onConnectClose]
    split
    next j hj => exact .lost he hs (hs.onConnectCloseCallback ▸ hc) hj
    next => exact .stream he hs
  next => exact .stream he hs

theorem does_of_step (hs : step s event = some r) : Does s event r := by
  cases event with
  | connect accepted =>
    obtain rfl := Option.some.inj hs
    exact .connect accepted
  | connectDone i success =>
    obtain ⟨⟨hc, ho⟩, he⟩ := Option.ite_none_right_eq_some.mp hs
    obtain rfl := Option.some.inj he
    exact .connectDone hc ho
  | read i input =>
    obtain ⟨-, he⟩ := Option.ite_none_right_eq_some.mp hs
    obtain rfl := Option.some.inj he
    cases input with
    | data =>
      rw [onMesageReceive]
      split
      next hm => exact .message (Bool.and_eq_true_iff.mp hm).1
      next =>
        have hsame : Does s (.read i .data) (s.setSocket i (s.socket i), []) :=
          .stream (.inl ⟨_, rfl⟩) ⟨rfl, rfl, rfl, rfl, rfl, rfl⟩
        rwa [setSocket_eq_self] at hsame
    | error => exact does_onSocketClose (.inl ⟨_, rfl⟩) ⟨rfl, rfl, rfl, rfl, rfl, rfl⟩
    | eof accepted =>
      cases accepted with
      | false => exact .stream (.inl ⟨_, rfl⟩) ⟨rfl, rfl, rfl, rfl, rfl, rfl⟩
      | true =>
        simp only [onMesageReceive, if_true, setConnection, setSocket_setSocket, setSocket_self]
        exact .stream (.inl ⟨_, rfl⟩) ⟨rfl, rfl, rfl, rfl, rfl, rfl⟩
  | shutdownDone i =>
    obtain ⟨-, he⟩ := Option.ite_none_right_eq_some.mp hs
    obtain rfl := Option.some.inj he
    exact does_onSocketClose (.inr rfl) ⟨rfl, rfl, rfl, rfl, rfl, rfl⟩
  | closed i =>
    obtain ⟨⟨hc, -, hi⟩, he⟩ := Option.ite_none_right_eq_some.mp hs
    obtain rfl := Option.some.inj he
    exact .closed hc hi
  | close callback =>
    obtain rfl := Option.some.inj hs
    exact .close callback

theorem Does.attempts (h : Does s event r) (he : ∀ accepted, event ≠ .connect accepted) :
    r.1.attempts = s.attempts := by
  cases h with
  | connect accepted => exact absurd rfl (he accepted)
  | @connectDone i success =>
    cases success with
    | true => rfl
    | false =>
      rw [onConnect]
      split <;> rfl
  | message => rfl
  | stream => rfl
  | lost =>
    rw [closeHandle_fst]
    rfl
  | closed =>
    rw [onClosed_fst]
    rfl
  | close callback =>
    cases hconn : s.connection_ with
    | none => rw [close_of_none hconn]
    | some i =>
      rw [close_of_some hconn, closeHandle_fst]
      rfl

end does
end TcpClient
end AeProxy
