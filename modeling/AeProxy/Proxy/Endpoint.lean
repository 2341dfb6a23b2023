import AeProxy.Proxy.Sessions
import AeProxy.Proxy.TcpProxy

/-! The socket address a request makes the proxies contact, against the ip and the port it names. -/
namespace AeProxy.Proxy
open Lib

namespace TcpProxy.TcpAgent

/-- `server_address_`. -/
def serverAddress (self : TcpAgent) : Text := self.ip ++ 58 :: Lib.signed self.port.toInt

/-- `real_server_addr`, which the agent connects to. -/
def realServerAddr (inet : UdpProxy.Inet) (self : TcpAgent) : UdpProxy.SocketAddr :=
  .new inet self.ip self.port.toUInt32.toUInt16

end TcpProxy.TcpAgent

namespace Endpoint
open UdpProxy

/-- The text of an ip and a port. -/
def text (ip : Text) (port : Int) : Text := ip ++ 58 :: Lib.signed port

/-- The ip is a dotted quad, and the port is one. -/
def Valid (inet : Inet) (ip : Text) (port : Int) : Prop :=
  (∃ addr, inet.ntoa addr = ip) ∧ 0 ≤ port ∧ port < 2 ^ 16

/-- The socket address is that of this ip and this port. -/
structure Carries (inet : Inet) (addr : SockaddrIn) (ip : Text) (port : Int) : Prop where
  ip : inet.ntoa addr.sinAddr = ip
  port : (addr.sinPort.toNat : Int) = port

/-- No server is contacted, or an agent connects to this ip and port and records them. -/
def TcpReaches (inet : Inet) (ip : Text) (port : Int) (before behind : TcpProxy.State) : Prop :=
  behind.agents = before.agents ∨ ∃ agent, behind.agents = before.agents ++ [agent] ∧
    Carries inet (agent.realServerAddr inet).ipv4 ip port ∧ agent.serverAddress = text ip port

/-- The same of a datagram from `peer`, with the key of its session. -/
def UdpReaches (inet : Inet) (peer : SockaddrIn) (ip : Text) (port : Int)
    (before behind : UdpProxy.State) : Prop :=
  behind.sent = before.sent ∨ ∃ send, behind.sent = before.sent ++ [send] ∧
    Carries inet send.addr ip port ∧
    behind.session.lookup (text (inet.ntoa peer.sinAddr) peer.sinPort.toNat ++ 64 :: text ip port) =
      some send.agent

/-- A socket address carries one ip and one port. -/
theorem Carries.inj {inet : Inet} {addr : SockaddrIn} {ip ip' : Text} {port port' : Int}
    (h : Carries inet addr ip port) (h' : Carries inet addr ip' port') : ip = ip' ∧ port = port' :=
  ⟨h.ip.symm.trans h'.ip, h.port.symm.trans h'.port⟩

/-- The conversions of a port, from 64 bits to 32 and to 16. -/
theorem toUInt16_ofInt (port : Int) :
    ((Int32.ofInt port).toUInt32.toUInt16.toNat : Int) = port % 2 ^ 16 := by
  have h : (Int32.ofInt port).toUInt32.toNat = (port % (2 ^ 32 : Nat)).toNat :=
    BitVec.toNat_ofInt (n := 32) port
  rw [UInt32.toNat_toUInt16, h]
  omega

theorem toInt_ofInt {port : Int} (h : 0 ≤ port) (h' : port < 2 ^ 16) :
    (Int32.ofInt port).toInt = port :=
  Int32.toInt_ofInt_of_le (by omega) (by omega)

/-- What `SocketAddr` makes of a text and a number. -/
theorem carries_iff (inet : Inet) (ip : Text) (port : Int) :
    Carries inet (SocketAddr.new inet (cStr ip) (Int32.ofInt port).toUInt32.toUInt16).ipv4 ip port ↔
      Valid inet ip port := by
  have hc : cStr (cStr ip) = cStr ip :=
    cStr_eq_self.mpr fun hz => by simpa using List.mem_takeWhile_imp hz
  constructor
  · rintro ⟨hi, hp⟩
    change ((Int32.ofInt port).toUInt32.toUInt16.toNat : Int) = port at hp
    rw [toUInt16_ofInt] at hp
    exact ⟨⟨_, hi⟩, by omega, by omega⟩
  · rintro ⟨⟨addr, rfl⟩, h0, h1⟩
    have hz : cStr (inet.ntoa addr) = inet.ntoa addr := cStr_eq_self.mpr (inet.zero_notMem addr)
    constructor
    · rw [SocketAddr.new, hz, hz, inet.ip4Addr_ntoa]
    · change ((Int32.ofInt port).toUInt32.toUInt16.toNat : Int) = port
      rw [toUInt16_ofInt, Int.emod_eq_of_lt h0 h1]

/-- Of a valid ip and port the texts say the same. -/
theorem text_eq {inet : Inet} {ip : Text} {port : Int} (h : Valid inet ip port) :
    cStr ip ++ 58 :: Lib.signed (Int32.ofInt port).toInt = text ip port := by
  obtain ⟨⟨addr, rfl⟩, h0, h1⟩ := h
  rw [cStr_eq_self.mpr (inet.zero_notMem addr), toInt_ofInt h0 h1, text]

/-- A bind contacts what it names exactly if that is valid. -/
theorem tcpReaches_iff (inet : Inet) {unpacker : Unpacker} {mem : Memory} {data : List UInt8}
    {command port : Object} {ip message : Text} {c p : Int}
    (ho : unpacker.objects data = [command, .str ip, port, .str message])
    (hc : command.integer? = some c) (hp : port.integer? = some p) (s : TcpProxy.State)
    (client : Text) : ∃ t, TcpProxy.step unpacker s (.message client mem data) = some t ∧
      (TcpReaches inet ip p s t ↔ Int32.ofInt c ≠ 0 ∨ Valid inet ip p) := by
  have hu : TcpProxy.unpack mem (unpacker.objects data) =
      ⟨Int32.ofInt c, ip, Int32.ofInt p, message⟩ := by
    rw [ho, TcpProxy.unpack_four, Object.i64_toInt32 hc, Object.i64_toInt32 hp]
    rfl
  refine ⟨_, rfl, ?_⟩
  simp only [TcpReaches, TcpProxy.State.agents, List.filterMap_append, hu, TcpProxy.onMessage]
  by_cases hz : Int32.ofInt c = 0
  · rw [or_iff_right (not_not_intro hz)]
    simp only [hz, if_true, List.filterMap_cons, List.filterMap_nil]
    constructor
    · rintro (he | ⟨agent, he, hcar, -⟩)
      · exact absurd (List.append_right_eq_self.mp he) (List.cons_ne_nil _ _)
      · obtain rfl := List.singleton_inj.mp (List.append_cancel_left he)
        exact (carries_iff inet ip p).mp hcar
    · intro hv
      exact .inr ⟨_, rfl, (carries_iff inet ip p).mpr hv, text_eq hv⟩
  · refine iff_of_true (.inl ?_) (.inl hz)
    simp [hz]

/-- And a datagram, in every state the proxy reaches. -/
theorem udpReaches_iff {inet : Inet} {unpacker : Unpacker} {mem : Memory} {data : List UInt8}
    {port : Object} {ip message : Text} {p : Int}
    (ho : unpacker.objects data = [.str ip, port, .str message]) (hp : port.integer? = some p)
    {s : UdpProxy.State} (hs : Keyed inet s) (peer : SockaddrIn) :
    ∃ t, UdpProxy.step inet unpacker s (.datagram peer mem data) = some t ∧
      (UdpReaches inet peer ip p s t ↔ Valid inet ip p) := by
  have hu : UdpProxy.unpack mem (unpacker.objects data) = ⟨ip, Int32.ofInt p, message⟩ := by
    rw [ho, unpack_three, Object.i64_toInt32 hp]
    rfl
  have hip : cStr (inet.ntoa peer.sinAddr) = inet.ntoa peer.sinAddr :=
    cStr_eq_self.mpr (inet.zero_notMem _)
  have hd : data ≠ [] := by
    rintro rfl
    rw [Unpacker.objects_nil] at ho
    cases ho
  have got := hs.getAgent peer (cStr ip) (Int32.ofInt p)
  refine ⟨_, congrArg some (if_neg hd), ?_⟩
  simp only [UdpReaches, State.forward, SocketAddr.ofSockaddr, hip, hu, State.sendToServer]
  generalize s.getAgent (inet.ntoa peer.sinAddr) (Int32.ofNat peer.sinPort.toNat) (cStr ip)
    (Int32.ofInt p) = u at got
  obtain ⟨u, agent⟩ := u
  have hsent : u.sent = s.sent := got.sent
  have haddr : (agent.sa inet).ipv4 =
      (SocketAddr.new inet (cStr ip) (Int32.ofInt p).toUInt32.toUInt16).ipv4 := by
    rw [UdpAgent.sa, got.server.1, got.server.2]
  simp only [hsent, haddr]
  constructor
  · rintro (he | ⟨send, he, hcar, -⟩)
    · exact absurd (List.append_right_eq_self.mp he) (List.cons_ne_nil _ _)
    · obtain rfl := List.singleton_inj.mp (List.append_cancel_left he)
      exact (carries_iff inet ip p).mp hcar
  · intro hv
    refine .inr ⟨_, rfl, (carries_iff inet ip p).mpr hv, ?_⟩
    have hstored := got.keyed.stored agent (List.mem_of_getElem? got.found)
    have hport : (Int32.ofNat peer.sinPort.toNat).toInt = (peer.sinPort.toNat : Int) := by
      have := peer.sinPort.toNat_lt
      rw [← Int32.ofInt_eq_ofNat, toInt_ofInt (by omega) (by omega)]
    rw [key, got.client.1, got.client.2, got.server.1, got.server.2, text_eq hv, hport] at hstored
    rw [text, List.append_assoc, List.cons_append]
    exact hstored

/-- Of every request decoded, with any integer for a port and any string for an ip: the proxies
contact nothing, or what it names, exactly if it is no bind, or names a dotted quad and a port of
16 bits; and then no other ip or port has that socket address. -/
theorem reaches_iff_valid (inet : Inet) (unpacker : Unpacker) (mem : Memory) (data : List UInt8)
    (ip message : Text) (port : Object) (p : Int) (hp : port.integer? = some p) :
    (∀ command c, unpacker.objects data = [command, .str ip, port, .str message] →
      command.integer? = some c → ∀ s client,
        ∃ t, TcpProxy.step unpacker s (.message client mem data) = some t ∧
          (TcpReaches inet ip p s t ↔ Int32.ofInt c ≠ 0 ∨ Valid inet ip p)) ∧
    (unpacker.objects data = [.str ip, port, .str message] → ∀ events s peer,
      (UdpProxy.step inet unpacker).run .new events = some s →
        ∃ t, UdpProxy.step inet unpacker s (.datagram peer mem data) = some t ∧
          (UdpReaches inet peer ip p s t ↔ Valid inet ip p)) ∧
    ∀ addr ip' p', Carries inet addr ip p → Carries inet addr ip' p' → ip = ip' ∧ p = p' :=
  ⟨fun _ _ ho hc s client => tcpReaches_iff inet ho hc hp s client,
    fun ho _ _ peer hr => udpReaches_iff ho hp (run_serves (keyed_new inet) hr).1 peer,
    fun _ _ _ h h' => h.inj h'⟩

/-- `127.0.0.1` and a port, in front of a message of one byte. -/
def request (port : List UInt8) : List UInt8 :=
  [169, 49, 50, 55, 46, 48, 46, 48, 46, 49] ++ port ++ [161, 97]

def localhost : Text := [49, 50, 55, 46, 48, 46, 48, 46, 49]

theorem reaches_iff_valid_localhost :
    let mem : Memory := ⟨0, 0, fun _ => 0, fun _ => []⟩
    (∃ t, TcpProxy.step Format.msgpack.toReader .new (.message [49] mem (0 :: request [80])) = some t ∧
      (TcpReaches .dotted localhost 80 .new t ↔
        Int32.ofInt 0 ≠ 0 ∨ Valid .dotted localhost 80)) ∧
    ∃ t, UdpProxy.step .dotted Format.msgpack.toReader .new
        (.datagram ⟨0x0100007f, 4444⟩ mem (request [80])) = some t ∧
      (UdpReaches .dotted ⟨0x0100007f, 4444⟩ localhost 80 .new t ↔ Valid .dotted localhost 80) :=
  ⟨(reaches_iff_valid .dotted Format.msgpack.toReader _ (0 :: request [80]) localhost [97]
      (.positiveInteger 80) 80 rfl).1 (.positiveInteger 0) 0 rfl rfl .new [49],
    (reaches_iff_valid .dotted Format.msgpack.toReader _ (request [80]) localhost [97]
      (.positiveInteger 80) 80 rfl).2.1 rfl [] .new ⟨0x0100007f, 4444⟩ rfl⟩

/-- Port 65616 is contacted as port 80, and recorded as named. -/
theorem not_reaches_wide :
    let mem : Memory := ⟨0, 0, fun _ => 0, fun _ => []⟩
    (∃ t, TcpProxy.step Format.msgpack.toReader .new
        (.message [49] mem (0 :: request [206, 0, 1, 0, 80])) = some t ∧
      ¬ TcpReaches .dotted localhost 65616 .new t) ∧
    ∃ t, UdpProxy.step .dotted Format.msgpack.toReader .new
        (.datagram ⟨0x0100007f, 4444⟩ mem (request [206, 0, 1, 0, 80])) = some t ∧
      ¬ UdpReaches .dotted ⟨0x0100007f, 4444⟩ localhost 65616 .new t := by
  intro mem
  have hlt : ¬ (65616 : Int) < 2 ^ 16 := by decide
  constructor
  · have ho : Unpacker.objects Format.msgpack.toReader (0 :: request [206, 0, 1, 0, 80]) =
        [.positiveInteger 0, .str localhost, .positiveInteger 65616, .str [97]] := rfl
    refine (tcpReaches_iff .dotted ho rfl rfl .new [49]).imp fun t ⟨ht, hr⟩ => ⟨ht, fun h => ?_⟩
    rcases hr.mp h with hc | hv
    · exact hc rfl
    · exact hlt hv.2.2
  · have ho : Unpacker.objects Format.msgpack.toReader (request [206, 0, 1, 0, 80]) =
        [.str localhost, .positiveInteger 65616, .str [97]] := rfl
    exact (udpReaches_iff ho rfl (keyed_new .dotted) ⟨0x0100007f, 4444⟩).imp fun t ⟨ht, hr⟩ =>
      ⟨ht, fun h => hlt (hr.mp h).2.2⟩

end Endpoint
end AeProxy.Proxy
