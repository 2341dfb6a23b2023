import AeProxy.Client.Numbering
import AeProxy.Server.Callbacks

/-! A careful run of `TcpClient` is one of all the classes together: client 0 of them goes the same
way, and calls what the run says. -/
namespace AeProxy.TcpClient
open Lib Callbacks

/-- The requests to connect that are under way, and the closings that end in `after_connect_fail`,
where all of them are on the last socket. -/
def connecting (self : TcpClient) : Nat := (self.socket self.socket_).connecting.toNat

def failing (self : TcpClient) : Nat :=
  if (self.socket self.socket_).failed = true ∧ (self.socket self.socket_).handle = .closing then 1
  else 0

/-- With the callback the user gives to its calls of `close`. -/
def ofCloseCallback (done : Nat) : CloseCallback → ConnectionClosed
  | .onClose => .onClose 0
  | .user callback => .close (callback.map fun _ => done)

/-- The connection on a socket. -/
def ofSocket (done : Nat) (socket : Socket) : Connection where
  name := socket.connection.name
  connected := socket.connection.connected
  onMessageCallback_ := if socket.connection.onMessageCallback then some (.client 0) else none
  onConnectCloseCallback_ :=
    if socket.connection.onConnectCloseCallback then some (.client 0) else none
  closeCompleteCallback_ := socket.connection.closeCompleteCallback.map (ofCloseCallback done)
  handle := socket.handle
  shutdowns := socket.shutdowns
  owner := some (.client 0)
  alive := true

/-- The user's callback in what a client does. -/
def calledBy (status message : Option Nat) (done : Nat) : Action → Option Nat
  | .status _ _ => status
  | .message _ => message
  | .userClosed _ => some done
  | _ => none

/-- The client is client 0 of the world, which has no other connections, and nothing else has called
the user. -/
structure Embeds (status message : Option Nat) (done : Nat) (t : TcpClient) (log : List Action)
    (w : World) : Prop where
  client : w.client 0 = ⟨t.connection_.map t.number, status, message, t.connecting, t.failing⟩
  connections : w.connections = t.number t.attempts
  connection : ∀ i, (t.socket i).Made → w.connection (t.number i) = ofSocket done (t.socket i)
  called : w.called = log.filterMap (calledBy status message done)
  onConnect : t.connectCallback_ = status.isSome
  onMessage : t.onMessageCallback_ = message.isSome

namespace Embeds
variable {status message : Option Nat} {done : Nat} {t : TcpClient} {log : List Action} {w : World}

/-- The world goes on, to one that embeds what the client has come to. -/
def Goes (status message : Option Nat) (done : Nat) (log : List Action)
    (r : TcpClient × List Action) (next : Option World) : Prop :=
  ∃ v, next = some v ∧ Embeds status message done r.1 (log ++ r.2) v

theorem skip (h : Embeds status message done t log w) :
    Embeds status message done t (log ++ []) w := by rwa [List.append_nil]

theorem goes (h : Embeds status message done t log w) :
    Goes status message done log (t, []) w := ⟨w, rfl, h.skip⟩

/-- What calls no user. -/
theorem emit (h : Embeds status message done t log w) {action : Action}
    (ha : calledBy status message done action = none) :
    Embeds status message done t (log ++ [action]) w :=
  { h with
    called := by
      rw [h.called, List.filterMap_append, List.filterMap_cons, ha, List.filterMap_nil,
        List.append_nil] }

theorem invoke (h : Embeds status message done t log w) {action : Action} {callback : Nat}
    (ha : calledBy status message done action = some callback) :
    Embeds status message done t (log ++ [action]) (w.invoke callback) :=
  { h with
    called := by
      rw [World.invoke, h.called, List.filterMap_append, List.filterMap_cons, ha,
        List.filterMap_nil] }

theorem setCloses (h : Embeds status message done t log w) (closes : Nat) :
    Embeds status message done { t with closes := closes } log w := { h with }

/-- Of a socket that has a connection, and keeps it. -/
theorem setMade (h : Embeds status message done t log w) (ht : Regular t) {i : Nat} {socket : Socket}
    (hi : (t.socket i).Made) (hm : socket.Made)
    (hconnecting : socket.connecting = (t.socket i).connecting)
    (hfailed : socket.failed = (t.socket i).failed) :
    Embeds status message done (t.setSocket i socket) log
      (w.setConnection (t.number i) (ofSocket done socket)) := by
  have hnumber : (t.setSocket i socket).number = t.number := number_setSocket (iff_of_true hm hi)
  have hlast : ((t.setSocket i socket).socket t.socket_).connecting =
        (t.socket t.socket_).connecting ∧
      (((t.setSocket i socket).socket t.socket_).failed = true ∧
        ((t.setSocket i socket).socket t.socket_).handle = .closing ↔
          (t.socket t.socket_).failed = true ∧ (t.socket t.socket_).handle = .closing) := by
    rcases eq_or_ne t.socket_ i with rfl | hne
    · have hnot := ne_true_of_eq_false ((ht.fits _).made hi).2.2
      rw [setSocket_self, hfailed]
      exact ⟨hconnecting, iff_of_false (fun hf => hnot hf.1) fun hf => hnot hf.1⟩
    · rw [setSocket_of_ne _ _ _ hne]
      exact ⟨rfl, Iff.rfl⟩
  have hconnecting' : (t.setSocket i socket).connecting = t.connecting :=
    congrArg Bool.toNat hlast.1
  have hfailing : (t.setSocket i socket).failing = t.failing := if_congr hlast.2 rfl rfl
  refine ⟨?_, ?_, fun j hj => ?_, h.called, h.onConnect, h.onMessage⟩
  · rw [hnumber, hconnecting', hfailing]
    exact h.client
  · rw [hnumber]
    exact h.connections
  · rw [made_setSocket (iff_of_true hm hi)] at hj
    rw [hnumber]
    rcases eq_or_ne j i with rfl | hji
    · rw [World.setConnection_self, setSocket_self]
    · have hne : t.number j ≠ t.number i := fun he => hji (Nat.count_injective hj hi he)
      rw [World.setConnection_of_ne _ _ _ hne, setSocket_of_ne _ _ _ hji]
      exact h.connection j hj

theorem runConnectCallback (h : Embeds status message done t log w) (attempt : Nat)
    (reported : ConnectStatus) : Goes status message done log
      (t, t.runConnectCallback attempt reported) (w.runConnectCallback 0) := by
  have hset := h.onConnect
  rw [TcpClient.runConnectCallback, World.runConnectCallback, h.client, hset]
  cases status with
  | none => exact h.goes
  | some callback => exact ⟨_, rfl, h.invoke rfl⟩

theorem closeComplete (h : Embeds status message done t log w) (i : Nat) (name : String)
    (callback : Option CloseCallback) : Goes status message done log (t, t.closeComplete i callback)
      (w.ifSet (callback.map (ofCloseCallback done)) (w.callConnectionClosed name)) := by
  rcases callback with _ | _ | _ | call
  · exact h.goes
  · exact h.runConnectCallback i .connectClose
  · exact h.goes
  · exact ⟨_, rfl, h.invoke rfl⟩

theorem closeHandle (h : Embeds status message done t log w) (ht : Regular t) {i : Nat}
    (hi : (t.socket i).Made) (callback : CloseCallback) : Goes status message done log
      (t.closeHandle i callback)
      (w.closeHandle (t.number i) (some (ofCloseCallback done callback))) := by
  have hmade := made_closeHandle t i callback
  have hasked : { w.connection (t.number i) with
      onMessageCallback_ := none, onConnectCloseCallback_ := none,
      closeCompleteCallback_ := some (ofCloseCallback done callback) } =
      ofSocket done { t.socket i with
        connection := TcpConnection.closeSlot.fill (t.socket i).connection (some callback) } := by
    rw [h.connection i hi]
    rfl
  rw [World.closeHandle, hasked]
  by_cases ho : (t.socket i).handle = .opened
  · rw [TcpConnection.close_of_opened ho] at hmade
    rw [closeHandle_of_opened ho]
    refine ⟨_, if_pos (Phase.isClosing_eq_false.mpr ho), ?_⟩
    exact (h.setMade ht hi hmade rfl rfl).emit rfl
  · rw [TcpConnection.close_of_not_opened ho] at hmade
    rw [closeHandle_of_not_opened ho]
    have hslot := h.setMade ht hi hmade rfl rfl
    obtain ⟨v, hv, hembeds⟩ := hslot.closeComplete i (t.socket i).connection.name (some callback)
    refine ⟨v, (if_neg (Phase.isClosing_eq_false.not.mpr ho)).trans ?_, hembeds⟩
    rw [World.closeComplete, World.setConnection_self]
    exact hv

theorem onConnectClose (h : Embeds status message done t log w) (ht : Regular t) :
    Goes status message done log t.onConnectClose (w.onConnectClose 0) := by
  rw [TcpClient.onConnectClose, World.onConnectClose, h.client]
  cases hconn : t.connection_ with
  | none => exact h.goes
  | some i => exact h.closeHandle ht (ht.connection i hconn) .onClose

theorem onSocketClose (h : Embeds status message done t log w) (ht : Regular t) {i : Nat}
    (hi : (t.socket i).Made) :
    Goes status message done log (t.onSocketClose i) (w.onSocketClose (t.number i)) := by
  rw [TcpClient.onSocketClose, World.onSocketClose, h.connection i hi]
  simp only [ofSocket]
  cases (t.socket i).connection.onConnectCloseCallback with
  | false => exact h.goes
  | true => exact h.onConnectClose ht

theorem onMesageReceive (h : Embeds status message done t log w) (ht : Regular t) {i : Nat}
    (hi : (t.socket i).Made) (input : TcpServer.Input) : Goes status message done log
      (t.onMesageReceive i input) (w.onMesageReceive (t.number i) input) := by
  have hgone : { w.connection (t.number i) with connected := false } =
      ofSocket done { t.socket i with
        connection := (t.socket i).connection.setConnectStatus false } := by
    rw [h.connection i hi]
    rfl
  have hgoneMade : Socket.Made { t.socket i with
      connection := (t.socket i).connection.setConnectStatus false } := hi
  cases input with
  | data =>
    have hset := h.onMessage
    simp only [TcpClient.onMesageReceive, World.onMesageReceive, h.connection i hi, ofSocket, hset]
    cases (t.socket i).connection.onMessageCallback with
    | false => exact h.goes
    | true =>
      show Goes _ _ _ _ _ (w.ifSet (w.client 0).onMessageCallback_ w.call)
      rw [h.client]
      cases message with
      | none => exact h.goes
      | some callback => exact ⟨_, rfl, h.invoke rfl⟩
  | error =>
    rw [World.onMesageReceive, hgone]
    have hdown := h.setMade ht hi hgoneMade rfl rfl
    have hmade : ((t.setSocket i { t.socket i with
        connection := (t.socket i).connection.setConnectStatus false }).socket i).Made := by
      rwa [setSocket_self]
    have hclosed := hdown.onSocketClose (ht.setMade hi hgoneMade rfl rfl) hmade
    rw [number_setSocket (iff_of_true hgoneMade hi)] at hclosed
    exact hclosed
  | eof accepted =>
    cases accepted with
    | false =>
      refine ⟨_, rfl, ?_⟩
      rw [hgone]
      exact (h.setMade ht hi hgoneMade rfl rfl).skip
    | true =>
      refine ⟨_, rfl, ?_⟩
      rw [hgone]
      simp only [TcpClient.onMesageReceive, if_true, TcpClient.setConnection, setSocket_setSocket,
        setSocket_self]
      have hmade : Socket.Made { t.socket i with
          shutdowns := (t.socket i).shutdowns + 1
          connection := (t.socket i).connection.setConnectStatus false } := hi
      exact (h.setMade ht hi hmade rfl rfl).skip

theorem shutdownDone (h : Embeds status message done t log w) (ht : Regular t) {i : Nat}
    (hi : (t.socket i).Made) : Goes status message done log
      ((t.setSocket i { t.socket i with
        shutdowns := (t.socket i).shutdowns - 1 }).onSocketClose i)
      ((w.setConnection (t.number i) { w.connection (t.number i) with
        shutdowns := (w.connection (t.number i)).shutdowns - 1 }).onSocketClose (t.number i)) := by
  have hspent : Socket.Made { t.socket i with shutdowns := (t.socket i).shutdowns - 1 } := hi
  have hmade : ((t.setSocket i { t.socket i with
      shutdowns := (t.socket i).shutdowns - 1 }).socket i).Made := by
    rwa [setSocket_self]
  have hclosed := (h.setMade ht hi hspent rfl rfl).onSocketClose (ht.setMade hi hspent rfl rfl) hmade
  rw [number_setSocket (iff_of_true hspent hi)] at hclosed
  rw [h.connection i hi]
  exact hclosed

theorem close (h : Embeds status message done t log w) (ht : Regular t) (callback : Bool) :
    Goes status message done log (t.close callback)
      (w.closeClient 0 (if callback then some done else none)) := by
  have hcounted := h.setCloses (t.closes + 1)
  have hregular := ht.setCloses (t.closes + 1)
  rw [World.closeClient, h.client]
  cases hconn : t.connection_ with
  | none =>
    rw [close_of_none hconn]
    cases callback with
    | false => exact ⟨w, rfl, hcounted.skip⟩
    | true => exact ⟨_, rfl, hcounted.invoke rfl⟩
  | some i =>
    rw [close_of_some hconn]
    have hclosed := hcounted.closeHandle hregular (ht.connection i hconn)
    cases callback with
    | false => exact hclosed (.user none)
    | true => exact hclosed (.user (some t.closes))

/-- Of a connection. -/
theorem closed (h : Embeds status message done t log w) (ht : Regular t) {i : Nat}
    (hi : (t.socket i).Made) : Goes status message done log (t.onClosed i)
      ((w.setConnection (t.number i) { w.connection (t.number i) with
        handle := .closed }).closeComplete (t.number i)) := by
  have hmade : Socket.Made { t.socket i with
      connection := { (t.socket i).connection with handle := .closed } } := hi
  have hclosed := (h.setMade ht hi hmade rfl rfl).closeComplete i (t.socket i).connection.name
    (t.socket i).connection.closeCompleteCallback
  rw [onClosed_of_not_failed ((ht.fits i).made hi).2.2, World.closeComplete,
    World.setConnection_self, h.connection i hi]
  exact hclosed

theorem connecting_last (t : TcpClient) (socket : Socket) :
    (t.setSocket t.socket_ socket).connecting = socket.connecting.toNat := by
  rw [TcpClient.connecting, setSocket_last, setSocket_self]

theorem failing_last (t : TcpClient) (socket : Socket) : (t.setSocket t.socket_ socket).failing =
    if socket.failed = true ∧ socket.handle = .closing then 1 else 0 := by
  rw [TcpClient.failing, setSocket_last, setSocket_self]

/-- What happens to the last attempt before it has a connection. -/
theorem setRaw (h : Embeds status message done t log w) (socket : Socket) {connecting failing : Nat}
    (hraw : ¬ (t.socket t.socket_).Made) (hm : ¬ socket.Made)
    (hconnecting : socket.connecting.toNat = connecting)
    (hfailing : (if socket.failed = true ∧ socket.handle = .closing then 1 else 0) = failing) :
    Embeds status message done (t.setSocket t.socket_ socket) log
      (w.setClient 0 { w.client 0 with connecting := connecting, failing := failing }) := by
  have hnumber : (t.setSocket t.socket_ socket).number = t.number :=
    number_setSocket (iff_of_false hm hraw)
  refine ⟨?_, ?_, fun j hj => ?_, h.called, h.onConnect, h.onMessage⟩
  · rw [World.setClient, h.client, hnumber, connecting_last, failing_last, hconnecting, hfailing]
    exact Function.update_self 0 _ w.client
  · rw [hnumber]
    exact h.connections
  · rw [made_setSocket (iff_of_false hm hraw)] at hj
    have hne : j ≠ t.socket_ := by
      rintro rfl
      exact hraw hj
    rw [hnumber, setSocket_of_ne _ _ _ hne]
    exact h.connection j hj

/-- Of an attempt that has failed. -/
theorem afterConnectFail (h : Embeds status message done t log w) (ht : Regular t) {i : Nat}
    (hf : (t.socket i).failed = true) (hc : (t.socket i).handle = .closing)
    (hi : (t.socket i).connecting = false) : Goes status message done log (t.onClosed i)
      ((w.setClient 0 { w.client 0 with
        failing := (w.client 0).failing - 1 }).runConnectCallback 0) := by
  obtain rfl : i = t.socket_ := (ht.fits i).failed hf hc
  have hraw : ¬ (t.socket t.socket_).Made := fun hm =>
    Bool.noConfusion (((ht.fits _).made hm).2.2.symm.trans hf)
  have hconnecting : t.connecting = 0 := congrArg Bool.toNat hi
  have hfailing : t.failing = 1 := if_pos ⟨hf, hc⟩
  have hclosed := h.setRaw { t.socket t.socket_ with
    connection := { (t.socket t.socket_).connection with handle := .closed } } hraw hraw hconnecting
    (if_neg fun hclosing => Phase.noConfusion hclosing.2)
  rw [h.client] at hclosed
  rw [onClosed_of_failed hf, h.client, hconnecting, hfailing]
  exact hclosed.runConnectCallback t.socket_ .connectFail

/-- The attempt before is over. -/
theorem connect (h : Embeds status message done t log w) (ht : Regular t) {accepted : Bool}
    (hc : Careful t (.connect accepted)) : Embeds status message done (t.connect accepted).1
      (log ++ (t.connect accepted).2)
      (w.setClient 0 { w.client 0 with
        connecting := (w.client 0).connecting + accepted.toNat }) := by
  have hover (hn : (t.socket t.socket_).handle ≠ .closed) :=
    (ht.fits t.socket_).made (ht.connection _ (hc hn))
  have hidle : t.connecting = 0 := by
    refine congrArg Bool.toNat (Bool.eq_false_iff.mpr fun hi => ?_)
    have ho := (ht.single.connecting _ hi).2
    have hmade := hover (by rw [ho]; exact Phase.noConfusion)
    exact Bool.noConfusion (hmade.2.1.symm.trans hi)
  have hfailing : t.failing = 0 := by
    refine if_neg fun ⟨hf, hclosing⟩ => ?_
    have hmade := hover (by rw [hclosing]; exact Phase.noConfusion)
    exact Bool.noConfusion (hmade.2.2.symm.trans hf)
  have hraw : ¬ (t.socket t.attempts).Made := fun hm =>
    Nat.lt_irrefl _ ((ht.fits _).made hm).1
  have hnew := not_made_raw accepted .opened
  have hnumber : (t.connect accepted).1.number = t.number :=
    number_setSocket (s := t) (iff_of_false hnew hraw)
  have hlast : (t.connect accepted).1.socket (t.connect accepted).1.socket_ =
      .raw accepted .opened := setSocket_self ..
  have hconnected : Embeds status message done (t.connect accepted).1 log
      (w.setClient 0 { w.client 0 with
        connecting := (w.client 0).connecting + accepted.toNat }) := by
    refine ⟨?_, ?_, fun j hj => ?_, h.called, h.onConnect, h.onMessage⟩
    · have hconnecting : (t.connect accepted).1.connecting = 0 + accepted.toNat := by
        rw [TcpClient.connecting, hlast, Nat.zero_add]
        rfl
      have hfailing' : (t.connect accepted).1.failing = 0 := by
        rw [TcpClient.failing, hlast]
        rfl
      rw [hnumber, hconnecting, hfailing', World.setClient, h.client, hidle, hfailing]
      exact Function.update_self 0 _ w.client
    · rw [hnumber]
      show _ = t.number (t.attempts + 1)
      rw [number, Nat.count_succ, if_neg hraw]
      exact h.connections
    · have hj' : (t.socket j).Made := (made_setSocket (iff_of_false hnew hraw) j).mp hj
      have hne : j ≠ t.attempts := by
        rintro rfl
        exact hraw hj'
      have hold : (t.connect accepted).1.socket j = t.socket j := setSocket_of_ne _ _ _ hne
      rw [hnumber, hold]
      exact h.connection j hj'
  exact hconnected.emit rfl

/-- The connection gets the next number. -/
theorem connected (h : Embeds status message done t log w) (ht : Regular t) (hlt : 0 < t.attempts)
    (ho : (t.socket t.socket_).handle = .opened) (hraw : ¬ (t.socket t.socket_).Made) :
    Goes status message done log (t.onConnect true) (w.onConnect 0 true false) := by
  have hattempts : t.attempts = t.socket_ + 1 := (Nat.sub_add_cancel hlt).symm
  have hlast : (t.onConnect true).1.socket t.socket_ = { t.socket t.socket_ with
      failed := false
      connection := { TcpConnection.new "" with handle := (t.socket t.socket_).handle } } :=
    setSocket_self ..
  have hold {j : Nat} (hj : j ≠ t.socket_) : (t.onConnect true).1.socket j = t.socket j :=
    setSocket_of_ne _ _ _ hj
  have hmade := onConnect_made t
  have hnumber {j : Nat} (hj : j ≤ t.socket_) : (t.onConnect true).1.number j = t.number j :=
    number_congr fun k hk => by rw [hold (Nat.ne_of_lt (Nat.lt_of_lt_of_le hk hj))]
  have hnext : w.connections = t.number t.socket_ := by
    rw [h.connections, hattempts, number, Nat.count_succ, if_neg hraw]
    rfl
  have hconnected : Embeds status message done (t.onConnect true).1 log
      ((w.makeConnection "" (some (.client 0))).setClient 0 { w.client 0 with
        connection_ := some w.connections }) := by
    refine ⟨?_, ?_, fun j hj => ?_, h.called, h.onConnect, h.onMessage⟩
    · have hconnecting : (t.onConnect true).1.connecting = t.connecting :=
        congrArg (fun socket => socket.connecting.toNat) hlast
      have hfailing : (t.onConnect true).1.failing = t.failing := by
        refine (if_neg fun hf => ?_).trans
          (if_neg fun hf => Phase.noConfusion (ho.symm.trans hf.2)).symm
        have hhandle : ((t.onConnect true).1.socket t.socket_).handle = .opened := by
          rw [hlast]
          exact ho
        exact Phase.noConfusion (hhandle.symm.trans hf.2)
      have hplace : (t.onConnect true).1.connection_.map (t.onConnect true).1.number =
          some w.connections := by
        rw [hnext, ← hnumber (Nat.le_refl _)]
        rfl
      rw [hconnecting, hfailing, hplace, h.client]
      exact Function.update_self 0 _ w.client
    · show w.connections + 1 = (t.onConnect true).1.number t.attempts
      rw [hnext, hattempts, ← hnumber (Nat.le_refl _)]
      rw [number, number, Nat.count_succ, if_pos hmade]
    · show (w.setConnection w.connections _).connection _ = _
      rcases eq_or_ne j t.socket_ with rfl | hne
      · rw [hnumber (Nat.le_refl _), ← hnext, World.setConnection_self, hlast]
        have hspent := ((ht.fits _).raw hraw).1
        have ho' : (t.socket t.socket_).connection.handle = .opened := ho
        simp only [ofSocket, Socket.handle, hspent, ho']
        rfl
      · rw [hold hne] at hj ⊢
        have hlt : j < t.socket_ := by
          have hle := ((ht.fits j).made hj).1
          rw [hattempts] at hle
          exact Nat.lt_of_le_of_ne (Nat.le_of_lt_succ hle) hne
        have hbefore : t.number j ≠ w.connections := by
          rw [hnext]
          exact Nat.ne_of_lt (Nat.count_strict_mono hj hlt)
        rw [hnumber (Nat.le_of_lt hlt), World.setConnection_of_ne _ _ _ hbefore]
        exact h.connection j hj
  exact hconnected.runConnectCallback t.socket_ .connectSuccess

/-- The socket is to be closed. -/
theorem notConnected (h : Embeds status message done t log w)
    (ho : (t.socket t.socket_).handle = .opened) (hraw : ¬ (t.socket t.socket_).Made)
    (hi : (t.socket t.socket_).connecting = false) :
    Goes status message done log (t.onConnect false) (w.onConnect 0 false false) := by
  have hconnecting : t.connecting = 0 := congrArg Bool.toNat hi
  have hfailing : t.failing = 0 := if_neg fun hf => Phase.noConfusion (ho.symm.trans hf.2)
  have hstep : t.onConnect false = _ := if_pos (Phase.isClosing_eq_false.mpr ho)
  have hfailed := h.setRaw { t.socket t.socket_ with
    failed := true
    connection := { (t.socket t.socket_).connection with handle := .closing } } hraw hraw hconnecting
    (if_pos ⟨rfl, rfl⟩)
  refine ⟨_, rfl, ?_⟩
  rw [hstep, h.client, hconnecting, hfailing]
  rw [h.client] at hfailed
  exact hfailed.emit rfl

theorem connectDone (h : Embeds status message done t log w) (ht : Regular t) {i : Nat}
    (hi : (t.socket i).connecting = true) (success : Bool) : Goes status message done log
      ((t.requestDone i).onConnect success)
      ((w.setClient 0 { w.client 0 with
        connecting := (w.client 0).connecting - 1 }).onConnect 0 success false) := by
  have hdone := ht.requestDone hi
  obtain ⟨rfl, ho, hlt, hraw⟩ := ht.attempt hi
  have hconnecting : t.connecting = 1 := congrArg Bool.toNat hi
  have hfailing : t.failing = 0 := if_neg fun hf => Phase.noConfusion (ho.symm.trans hf.2)
  have hrequest := h.setRaw { t.socket t.socket_ with connecting := false } hraw hraw rfl
    (if_neg fun hf => Phase.noConfusion (ho.symm.trans hf.2))
  have hnow : (t.requestDone t.socket_).socket t.socket_ =
      { t.socket t.socket_ with connecting := false } := setSocket_self ..
  have ho' : ((t.requestDone t.socket_).socket t.socket_).handle = .opened := by
    rw [hnow]
    exact ho
  have hraw' : ¬ ((t.requestDone t.socket_).socket t.socket_).Made := by
    rw [hnow]
    exact hraw
  rw [h.client] at hrequest
  rw [h.client, hconnecting, hfailing]
  cases success with
  | true => exact hrequest.connected hdone (Nat.zero_lt_of_lt hlt) ho' hraw'
  | false =>
    refine hrequest.notConnected ho' hraw' ?_
    show ((t.requestDone t.socket_).socket t.socket_).connecting = false
    rw [hnow]

end Embeds

/-- What a client takes alone, as one of the classes. The request of an attempt that is refused never
completes. -/
def carried (done : Nat) (t : TcpClient) : Event → List Callbacks.Event
  | .connect accepted => if accepted then [.client 0 .connect] else []
  | .connectDone _ success => [.client 0 (.connectDone success false)]
  | .read i input => [.connection (t.number i) (.read input)]
  | .shutdownDone i => [.connection (t.number i) .shutdownDone]
  | .closed i =>
    if (t.socket i).failed then [.client 0 .afterConnectFail]
    else [.connection (t.number i) .closed]
  | .close callback => [.client 0 (.close (if callback then some done else none))]

section step
variable {status message : Option Nat} {done : Nat} {t : TcpClient} {log : List Action} {w : World}

theorem Embeds.connectionStep (h : Embeds status message done t log w) {i : Nat}
    (hi : (t.socket i).Made) (event : ConnectionEvent) :
    World.step w (.connection (t.number i) event) = w.connectionStep (t.number i) event :=
  if_pos (by rw [h.connection i hi]; rfl)

theorem Embeds.step (h : Embeds status message done t log w) (ht : Regular t) {event : Event}
    (hc : Careful t event) (hserved : Served t event) {r : TcpClient × List Action}
    (hr : TcpClient.step t event = some r) :
    ∃ v, World.step.run w (carried done t event) = some v ∧
      Embeds status message done r.1 (log ++ r.2) v := by
  have hone {next : Option World} {d : Callbacks.Event} (hd : World.step w d = next)
      (hgoes : Embeds.Goes status message done log r next) :
      ∃ v, World.step.run w [d] = some v ∧ Embeds status message done r.1 (log ++ r.2) v := by
    obtain ⟨v, rfl, hv⟩ := hgoes
    exact ⟨v, Step.run_cons_eq_some.mpr ⟨v, hd, rfl⟩, hv⟩
  cases event with
  | connect accepted =>
    cases hr
    have hconnected := h.connect ht hc
    cases accepted with
    | true => exact hone rfl ⟨_, rfl, hconnected⟩
    | false =>
      refine ⟨w, rfl, ?_⟩
      have hsame : w.setClient 0 { w.client 0 with
          connecting := (w.client 0).connecting + false.toNat } = w :=
        congrArg (fun client => { w with client := client }) (Function.update_eq_self ..)
      rwa [hsame] at hconnected
  | connectDone i success =>
    obtain ⟨⟨hi, -⟩, he⟩ := Option.ite_none_right_eq_some.mp hr
    cases he
    refine hone (if_pos ?_) (h.connectDone ht hi success)
    have hlast := (ht.attempt hi).1
    rw [h.client]
    show 0 < (t.socket t.socket_).connecting.toNat
    rw [← hlast, hi]
    exact Nat.one_pos
  | read i input =>
    obtain ⟨hopen, he⟩ := Option.ite_none_right_eq_some.mp hr
    cases he
    refine hone ?_ (h.onMesageReceive ht hserved input)
    rw [h.connectionStep hserved]
    refine if_pos ?_
    rw [h.connection i hserved]
    exact hopen
  | shutdownDone i =>
    obtain ⟨hi, he⟩ := Option.ite_none_right_eq_some.mp hr
    cases he
    have hmade := ht.shutting hi
    refine hone ?_ (h.shutdownDone ht hmade)
    rw [h.connectionStep hmade]
    refine if_pos ?_
    rw [h.connection i hmade]
    exact hi
  | closed i =>
    obtain ⟨⟨hclosing, hnone, hi⟩, he⟩ := Option.ite_none_right_eq_some.mp hr
    cases he
    cases hf : (t.socket i).failed with
    | true =>
      have hlast : i = t.socket_ := (ht.fits i).failed hf hclosing
      rw [carried, if_pos hf]
      refine hone (if_pos ?_) (h.afterConnectFail ht hf hclosing hi)
      have hfailing : t.failing = 1 := if_pos (hlast ▸ ⟨hf, hclosing⟩)
      rw [h.client, hfailing]
      exact Nat.one_pos
    | false =>
      have hmade : (t.socket i).Made := by
        by_contra hn
        exact Bool.noConfusion (hf.symm.trans (((ht.fits i).raw hn).2 hclosing))
      rw [carried, if_neg (ne_true_of_eq_false hf)]
      refine hone ?_ (h.closed ht hmade)
      rw [h.connectionStep hmade]
      refine if_pos ?_
      rw [h.connection i hmade]
      exact ⟨hclosing, hnone⟩
  | close callback =>
    cases hr
    exact hone rfl (h.close ht callback)

end step

/-- How a client is set up. -/
def setup (status message : Option Nat) : List Callbacks.Event :=
  [.client 0 (.setConnectStatusCallback status), .client 0 (.setMessageCallback message)]

theorem setup_embeds (status message : Option Nat) (done : Nat) :
    ∃ w, World.step.run World.new (setup status message) = some w ∧
      Embeds status message done (new status.isSome message.isSome) [] w := by
  refine ⟨_, rfl, rfl, ?_, fun i hi => absurd hi (not_made_raw false .closed), rfl, rfl, rfl⟩
  exact (Nat.count_zero _).symm

/-- What a client does in a careful run it does among all the classes, and no call of it finds an
empty function. -/
theorem run_embeds {status message : Option Nat} {done : Nat} {events : List Event}
    {r : TcpClient × List Action}
    (hc : (Machine.logged step).Throughout (fun s event => Careful s.1 event ∧ Served s.1 event)
      (new status.isSome message.isSome, []) events)
    (hr : (Machine.logged step).run (new status.isSome message.isSome, []) events = some r) :
    ∃ w, World.step.run World.new (setup status message ++ (Machine.logged step).trace
        (fun s event => carried done s.1 event) (new status.isSome message.isSome, []) events) =
        some w ∧
      Embeds status message done r.1 r.2 w := by
  obtain ⟨w, hw, hembeds⟩ := setup_embeds status message done
  have hstep (s : TcpClient × List Action) (u : World) (event : Event) (s' : TcpClient × List Action)
      (hsu : Embeds status message done s.1 s.2 u ∧ Regular s.1)
      (hc : Careful s.1 event ∧ Served s.1 event) (hs' : (Machine.logged step) s event = some s') :
      ∃ v, World.step.run u (carried done s.1 event) = some v ∧
        Embeds status message done s'.1 s'.2 v ∧ Regular s'.1 := by
    obtain ⟨⟨t, out⟩, hr, rfl⟩ := Option.map_eq_some_iff.mp hs'
    have ht : Regular t := hsu.2.step hc.1 hc.2 hr
    obtain ⟨v, hv, hembeds⟩ := hsu.1.step hsu.2 hc.1 hc.2 hr
    exact ⟨v, hv, hembeds, ht⟩
  obtain ⟨v, hv, hembeds, -⟩ := Step.run_simulated_of hstep ⟨hembeds, regular_new _ _⟩ hc hr
  exact ⟨v, Step.run_append_eq_some.mpr ⟨w, hw, hv⟩, hembeds⟩

end AeProxy.TcpClient
