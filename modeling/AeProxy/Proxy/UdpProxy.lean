import AeProxy.Lib.System
import AeProxy.Proxy.Msgpack
import Mathlib.Data.List.AList

/-! `UdpProxy`: datagrams forwarded through one agent for each session, and the replies. -/
namespace AeProxy.Proxy.UdpProxy
open Lib

/-- The port in host order. -/
structure SockaddrIn where
  sinAddr : UInt32
  sinPort : UInt16
  deriving DecidableEq, Repr

/-- `inet_ntoa` and `uv_ip4_addr`. -/
structure Inet where
  ntoa : UInt32 → Text
  ip4Addr : Text → UInt32
  ip4Addr_ntoa : ∀ addr, ip4Addr (ntoa addr) = addr
  zero_notMem : ∀ addr, 0 ∉ ntoa addr
  at_notMem : ∀ addr, 64 ∉ ntoa addr

/-- Addresses in dotted form, the bytes as they lie in memory. Of a text that is no dotted quad
`uv_ip4_addr` leaves the address zero. -/
def Inet.dotted : Inet where
  ntoa addr := Lib.dotted (toBytes 4 addr.toNat)
  ip4Addr text :=
    let addr := UInt32.ofNat (ofBytes (undotted text))
    if Lib.dotted (toBytes 4 addr.toNat) = text then addr else 0
  ip4Addr_ntoa addr := by
    have hl := addr.toNat_lt
    have hr : UInt32.ofNat (ofBytes (undotted (Lib.dotted (toBytes 4 addr.toNat)))) = addr := by
      rw [undotted_dotted (by simp [toBytes]), ofBytes_toBytes, Nat.mod_eq_of_lt (by omega),
        UInt32.ofNat_toNat]
    simp only [hr, if_true]
  zero_notMem addr h := by
    have := mem_dotted h
    simp at this
  at_notMem addr h := by
    have := mem_dotted h
    simp at this

structure SocketAddr where
  ip : Text
  port : UInt16
  ipv4 : SockaddrIn
  deriving DecidableEq, Repr

namespace SocketAddr

def new (inet : Inet) (ip : Text) (port : UInt16) : SocketAddr :=
  ⟨ip, port, inet.ip4Addr (cStr ip), port⟩

def ofSockaddr (inet : Inet) (addr : SockaddrIn) : SocketAddr :=
  ⟨inet.ntoa addr.sinAddr, addr.sinPort, addr⟩

end SocketAddr

/-- An agent: its socket, and what it was constructed with. -/
structure UdpAgent where
  handle : Nat
  cip : Text
  cport : Int32
  sip : Text
  sport : Int32
  deriving DecidableEq, Repr

namespace UdpAgent

def ca (inet : Inet) (self : UdpAgent) : SocketAddr :=
  .new inet self.cip self.cport.toUInt32.toUInt16

def sa (inet : Inet) (self : UdpAgent) : SocketAddr :=
  .new inet self.sip self.sport.toUInt32.toUInt16

end UdpAgent

/-- What `unpack` returns. -/
structure Request where
  ip : Text
  port : Int32
  message : Text
  deriving DecidableEq, Repr

def assign (mem : Memory) (i : Nat) (obj : Object) (locals : Request) : Request :=
  match i with
  | 0 => { locals with ip := obj.strOr (mem.str 0) }
  | 1 => { locals with port := (obj.i64 (mem.i64 1)).toInt32 }
  | 2 => { locals with message := obj.strOr (mem.str 2) }
  | _ => locals

def unpack (mem : Memory) (objs : List Object) : Request :=
  unpackLoop (assign mem) 0 ⟨[], mem.port, []⟩ objs

/-- A call of `uv_udp_send` on the socket of an agent. -/
structure Send where
  agent : UdpAgent
  addr : SockaddrIn
  buf : Text
  deriving DecidableEq

/-- The table, the agents, and the calls of `uv_udp_send` with the bytes lent to each. The bytes are
those libuv sends only if it sends them during the call. -/
structure State where
  session : AList fun _ : Text => UdpAgent
  agents : List UdpAgent
  sent : List Send

/-- A datagram from a client, or one an agent receives. -/
inductive Event where
  | datagram (peer : SockaddrIn) (mem : Memory) (data : List UInt8)
  | reply (agent : Nat) (data : List UInt8)

def Event.data : Event → List UInt8
  | .datagram _ _ data => data
  | .reply _ data => data

/-- The events the callbacks run for. -/
def heard (events : List Event) : List Event := events.filter fun event => event.data ≠ []

theorem heard_cons (event : Event) (events : List Event) :
    heard (event :: events) = heard [event] ++ heard events := List.filter_append [event] events

theorem heard_empty {event : Event} (hd : event.data = []) : heard [event] = [] :=
  List.filter_cons_of_neg (by simpa using hd)

theorem heard_bytes {event : Event} (hd : event.data ≠ []) : heard [event] = [event] :=
  List.filter_cons_of_pos (by simpa using hd)

/-- The key of a session, `cip:cport@sip:sport`. -/
def key (cip : Text) (cport : Int32) (sip : Text) (sport : Int32) : Text :=
  cip ++ 58 :: (Lib.signed cport.toInt ++ 64 :: (sip ++ 58 :: Lib.signed sport.toInt))

namespace State

def new : State := ⟨∅, [], []⟩

def getAgent (self : State) (cip : Text) (cport : Int32) (sip : Text) (sport : Int32) :
    State × UdpAgent :=
  match self.session.lookup (key cip cport sip sport) with
  | some agent => (self, agent)
  | none =>
    let agent : UdpAgent := ⟨self.agents.length, cip, cport, sip, sport⟩
    ({ self with
        session := self.session.insert (key cip cport sip sport) agent
        agents := self.agents ++ [agent] }, agent)

def sendToServer (inet : Inet) (self : State) (agent : UdpAgent) (buf : Text) : State :=
  { self with sent := self.sent ++ [⟨agent, (agent.sa inet).ipv4, buf⟩] }

def sendToClient (inet : Inet) (self : State) (agent : UdpAgent) (buf : Text) : State :=
  { self with sent := self.sent ++ [⟨agent, (agent.ca inet).ipv4, buf⟩] }

def forward (inet : Inet) (self : State) (peer : SocketAddr) (request : Request) : State :=
  let (self, agent) := self.getAgent (cStr peer.ip) (Int32.ofNat peer.port.toNat) (cStr request.ip)
    request.port
  self.sendToServer inet agent request.message

end State

/-- `UdpSocket::on_mesage_receive` runs the callback for bytes only. -/
def step (inet : Inet) (unpacker : Unpacker) : Step State Event := fun self event =>
  match event with
  | .datagram peer mem data =>
    some (if data = [] then self
      else self.forward inet (.ofSockaddr inet peer) (unpack mem (unpacker.objects data)))
  | .reply agent data =>
    self.agents[agent]?.map fun a => if data = [] then self else self.sendToClient inet a data

/-- Behind the third object nothing is stored. -/
theorem unpack_three {mem : Memory} {objs : List Object} (a b c : Object) :
    unpack mem (a :: b :: c :: objs) =
      ⟨a.strOr (mem.str 0), (b.i64 (mem.i64 1)).toInt32, c.strOr (mem.str 2)⟩ := by
  apply unpackLoop_keeps id (k := 3) ?_ (Nat.le_refl 3)
  intro i hi obj locals
  unfold assign
  split
  all_goals first | omega | rfl

end AeProxy.Proxy.UdpProxy
