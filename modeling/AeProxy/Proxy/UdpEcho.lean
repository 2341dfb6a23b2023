import AeProxy.Lib.Network
import AeProxy.Proxy.Framing
import AeProxy.Proxy.Sessions
import Mathlib.Data.Multiset.OrderedMonoid

/-! Clients that ask servers for an echo through the proxy, on a network that loses, repeats and
reorders datagrams, while libuv sends each at once. -/
namespace AeProxy.Proxy.UdpProxy
open Lib

abbrev Datagram := Lib.Packet SockaddrIn (List UInt8)

/-- What has a socket address. -/
inductive Host where
  | client
  | proxy
  | server
  | agent (handle : Nat)
  | nobody
  deriving DecidableEq, Repr

/-- Who has which address, the one the socket of each agent gets if any is left, and the longest
datagram the network takes. -/
structure Places where
  host : SockaddrIn → Host
  proxy : SockaddrIn
  socket : Nat → Option SockaddrIn
  longest : Nat
  host_proxy : host proxy = .proxy
  host_socket : ∀ handle addr, socket handle = some addr → host addr = .agent handle

/-- What a client sends, with lengths the format can write. -/
structure Wish extends Request where
  ip_length : ip.length < 2 ^ 32
  message_length : message.length < 2 ^ 32

namespace Wish

def encode (m : Msgpack) (wish : Wish) : List UInt8 :=
  m.packStr wish.ip ++ (m.packInt wish.port ++ m.packStr wish.message)

/-- Whatever memory the proxy finds, it reads a datagram as it was sent. -/
theorem unpack_encode (m : Msgpack) (mem : Memory) (wish : Wish) :
    unpack mem (Unpacker.objects m.toReader (wish.encode m)) = wish.toRequest := by
  obtain ⟨b, hb, hbo⟩ := Framing.objects_packInt m wish.port (m.packStr wish.message ++ [])
  have hmsg := Framing.objects_packStr m wish.message_length []
  rw [List.append_nil] at hbo hmsg
  rw [encode, Framing.objects_packStr m wish.ip_length, hbo, hmsg, unpack_three,
    Object.i64_toInt32 hb, Int32.ofInt_toInt]
  rfl

theorem encode_ne_nil (m : Msgpack) (wish : Wish) : wish.encode m ≠ [] := by
  intro h
  have hobj := Framing.objects_packStr m wish.ip_length (m.packInt wish.port ++ m.packStr wish.message)
  rw [← encode, h, Unpacker.objects_nil] at hobj
  cases hobj

end Wish

/-- The socket address of the server a request names. -/
def Request.server (inet : Inet) (request : Request) : SockaddrIn :=
  (SocketAddr.new inet request.ip request.port.toUInt32.toUInt16).ipv4

/-- All hosts: the state of the proxy, what clients have asked for and what they have received. -/
structure Echo where
  proxy : State
  requested : List (SockaddrIn × Wish)
  received : List Datagram

namespace Echo

def new : Echo := ⟨.new, [], []⟩

section hosts
variable (places : Places) (inet : Inet) (m : Msgpack)

/-- A datagram that is too long is refused. -/
def transmit (datagram : Datagram) : List Datagram :=
  if datagram.data.length ≤ places.longest then [datagram] else []

/-- `UdpSocket::send` of an agent, whose socket is bound at its first datagram. This is libuv when it
sends during the call: what it queues goes out without these bytes. -/
def sendOn (send : Send) : List Datagram :=
  match places.socket send.agent.handle with
  | some src => transmit places ⟨src, send.addr, send.buf⟩
  | none => []

/-- The callback of the timer of a client. -/
def act : Machine Echo (SockaddrIn × Wish) Datagram := fun self (client, wish) =>
  if places.host client = .client then
    some ({ self with requested := self.requested ++ [(client, wish)] },
      transmit places ⟨client, places.proxy, wish.encode m⟩)
  else none

/-- What the proxy does, with the datagrams it sends. -/
def relay (self : Echo) (event : Event) : Echo × List Datagram :=
  match UdpProxy.step inet m.toReader self.proxy event with
  | some proxy =>
    ({ self with proxy := proxy },
      (proxy.sent.drop self.proxy.sent.length).flatMap (sendOn places))
  | none => (self, [])

/-- `UdpSocket::on_mesage_receive` runs the callback for bytes only. Servers send them back. -/
def receive (self : Echo) (mem : Memory) (datagram : Datagram) : Echo × List Datagram :=
  if datagram.data = [] then (self, [])
  else
    match places.host datagram.dst with
    | .client => ({ self with received := self.received ++ [datagram] }, [])
    | .proxy => self.relay places inet m (.datagram datagram.src mem datagram.data)
    | .server => (self, transmit places ⟨datagram.dst, datagram.src, datagram.data⟩)
    | .agent handle => self.relay places inet m (.reply handle datagram.data)
    | .nobody => (self, [])

def hosts : Hosts Echo (SockaddrIn × Wish) Memory SockaddrIn (List UInt8) where
  act := act places m
  receive := receive places inet m

end hosts

/-- A message for a server and back. -/
structure Exchange where
  client : SockaddrIn
  server : SockaddrIn
  message : List UInt8
  deriving DecidableEq

section exchange
variable (places : Places) (inet : Inet) (m : Msgpack)

/-- What clients have asked for. -/
def asked (s : Echo) : List Exchange :=
  s.requested.map fun (client, wish) => ⟨client, wish.server inet, wish.message⟩

/-- The exchange a datagram is part of, by the agent it is from or for, or by what the proxy will
read. -/
def exchange (s : Echo) (datagram : Datagram) : Option Exchange :=
  match places.host datagram.src, places.host datagram.dst with
  | .agent handle, _ | _, .agent handle =>
    s.proxy.agents[handle]?.map fun agent =>
      ⟨(agent.ca inet).ipv4, (agent.sa inet).ipv4, datagram.data⟩
  | .client, .proxy =>
    let mem : Memory := ⟨0, 0, fun _ => 0, fun _ => []⟩
    let request := unpack mem (Unpacker.objects m.toReader datagram.data)
    some ⟨datagram.src, request.server inet, request.message⟩
  | _, _ => none

/-- An agent with this socket serves the exchange. -/
def Serving (s : Echo) (x : Exchange) (src : SockaddrIn) : Prop :=
  ∃ agent : UdpAgent, s.proxy.agents[agent.handle]? = some agent ∧
    places.socket agent.handle = some src ∧ (agent.ca inet).ipv4 = x.client ∧
    (agent.sa inet).ipv4 = x.server

/-- The four datagrams of an exchange. -/
inductive Carries (s : Echo) (x : Exchange) : Datagram → Prop
  | request {wish : Wish} (hs : wish.server inet = x.server) (hm : wish.message = x.message) :
    Carries s x ⟨x.client, places.proxy, wish.encode m⟩
  | forwarded {src : SockaddrIn} (h : Serving places inet s x src) :
    Carries s x ⟨src, x.server, x.message⟩
  | answer {src : SockaddrIn} (h : Serving places inet s x src) :
    Carries s x ⟨x.server, src, x.message⟩
  | reply {src : SockaddrIn} (h : Serving places inet s x src) :
    Carries s x ⟨src, x.client, x.message⟩

/-- The datagram is one of an exchange asked for. -/
def Due (s : Echo) (datagram : Datagram) : Prop :=
  ∃ x ∈ s.asked inet, Carries places inet m s x datagram

/-- Clients ask for servers only, and what they have received are replies. -/
structure Fair (s : Echo) : Prop where
  keyed : Keyed inet s.proxy
  asked : ∀ x ∈ s.asked inet, places.host x.client = .client ∧ places.host x.server = .server
  received : ∀ datagram ∈ s.received, ∃ x ∈ s.asked inet, ∃ src,
    Serving places inet s x src ∧ datagram = ⟨src, x.client, x.message⟩

end exchange

/-- Agents stay, and so does what has been asked for. -/
def Grows (s t : Echo) : Prop := s.proxy.agents <+: t.proxy.agents ∧ s.requested <+: t.requested

variable {places : Places} {inet : Inet} {m : Msgpack} {s t : Echo} {x : Exchange}
  {datagram : Datagram}

theorem Grows.asked (h : Grows s t) : s.asked inet <+: t.asked inet := h.2.map _

theorem getElem?_of_prefix {agents agents' : List UdpAgent} (h : agents <+: agents') {i : Nat}
    {agent : UdpAgent} (hi : agents[i]? = some agent) : agents'[i]? = some agent := by
  obtain ⟨more, rfl⟩ := h
  rw [List.getElem?_append_left (List.getElem?_eq_some_iff.mp hi).1, hi]

theorem Serving.mono {src : SockaddrIn} (h : Serving places inet s x src)
    (ha : s.proxy.agents <+: t.proxy.agents) : Serving places inet t x src := by
  obtain ⟨agent, hi, hrest⟩ := h
  exact ⟨agent, getElem?_of_prefix ha hi, hrest⟩

theorem Carries.mono (h : Carries places inet m s x datagram)
    (ha : s.proxy.agents <+: t.proxy.agents) : Carries places inet m t x datagram := by
  cases h with
  | request hs hm => exact .request hs hm
  | forwarded h => exact .forwarded (h.mono ha)
  | answer h => exact .answer (h.mono ha)
  | reply h => exact .reply (h.mono ha)

theorem Due.mono (hg : Grows s t) (h : Due places inet m s datagram) : Due places inet m t datagram := by
  obtain ⟨x, hx, hd⟩ := h
  exact ⟨x, hg.asked.subset hx, hd.mono hg.1⟩

theorem Serving.exchange_eq {handle : Nat} {src : SockaddrIn} {message : List UInt8}
    (h : Serving places inet s x src) (hsrc : places.host src = .agent handle)
    (hm : message = x.message) : s.proxy.agents[handle]?.map (fun agent : UdpAgent =>
      (⟨(agent.ca inet).ipv4, (agent.sa inet).ipv4, message⟩ : Exchange)) = some x := by
  obtain ⟨agent, hi, hsock, hc, hs⟩ := h
  obtain rfl : agent.handle = handle :=
    Host.agent.inj ((places.host_socket _ _ hsock).symm.trans hsrc)
  rw [hi, Option.map_some, hc, hs, hm]

/-- A datagram is part of the one exchange it carries. -/
theorem Carries.exchange_eq (h : Carries places inet m s x datagram)
    (hc : places.host x.client = .client) (hs : places.host x.server = .server) :
    exchange places inet m s datagram = some x := by
  have hagent {src : SockaddrIn} (h : Serving places inet s x src) :
      ∃ handle, places.host src = .agent handle := by
    obtain ⟨agent, -, hsock, -⟩ := h
    exact ⟨_, places.host_socket _ _ hsock⟩
  cases h with
  | request hserver hm =>
    rw [exchange, hc, places.host_proxy]
    simp only [Wish.unpack_encode, hserver, hm]
  | forwarded h =>
    obtain ⟨handle, hsrc⟩ := hagent h
    rw [exchange, hsrc]
    exact h.exchange_eq hsrc rfl
  | answer h =>
    obtain ⟨handle, hsrc⟩ := hagent h
    rw [exchange, hs, hsrc]
    exact h.exchange_eq hsrc rfl
  | reply h =>
    obtain ⟨handle, hsrc⟩ := hagent h
    rw [exchange, hsrc]
    exact h.exchange_eq hsrc rfl

end Echo

/-! What the proxy does with a request, whatever it names. -/

section forward
variable {inet : Inet} {s : State}

theorem Keyed.handle_getAgent_le (h : Keyed inet s) (cip sip : Text) (cport sport : Int32) :
    (s.getAgent cip cport sip sport).2.handle ≤ s.agents.length := by
  rw [State.getAgent]
  split
  case h_1 agent hs =>
    obtain ⟨hi, -⟩ := h.entry _ agent hs
    exact Nat.le_of_lt (List.getElem?_eq_some_iff.mp hi).1
  case h_2 => exact Nat.le_refl _

theorem Keyed.forward (h : Keyed inet s) (peer : SockaddrIn) (request : Request) :
    let t := s.forward inet (.ofSockaddr inet peer) request
    Keyed inet t ∧ s.agents <+: t.agents ∧ ∃ agent : UdpAgent, agent.handle ≤ s.agents.length ∧
      t.sent = s.sent ++ [⟨agent, request.server inet, request.message⟩] ∧
      t.agents[agent.handle]? = some agent ∧ (agent.ca inet).ipv4 = peer ∧
      (agent.sa inet).ipv4 = request.server inet := by
  intro t
  have got := h.getAgent peer (cStr request.ip) request.port
  have hle := h.handle_getAgent_le (inet.ntoa peer.sinAddr) (cStr request.ip)
    (Int32.ofNat peer.sinPort.toNat) request.port
  have hip : cStr (inet.ntoa peer.sinAddr) = inet.ntoa peer.sinAddr :=
    cStr_eq_self.mpr (inet.zero_notMem _)
  have hcc : cStr (cStr request.ip) = cStr request.ip :=
    cStr_eq_self.mpr fun hz => by simpa using List.mem_takeWhile_imp hz
  have hserver : ((s.getAgent (inet.ntoa peer.sinAddr) (Int32.ofNat peer.sinPort.toNat)
      (cStr request.ip) request.port).2.sa inet).ipv4 = request.server inet := by
    rw [UdpAgent.sa, got.server.1, got.server.2, Request.server, SocketAddr.new, SocketAddr.new, hcc]
  have ht : t = (s.getAgent (inet.ntoa peer.sinAddr) (Int32.ofNat peer.sinPort.toNat)
      (cStr request.ip) request.port).1.sendToServer inet (s.getAgent (inet.ntoa peer.sinAddr)
        (Int32.ofNat peer.sinPort.toNat) (cStr request.ip) request.port).2 request.message := by
    rw [← hip]
    rfl
  rw [ht]
  refine ⟨got.keyed.of_sent _, got.agents, _, hle, ?_, got.found, got.client.ca_ipv4, hserver⟩
  rw [State.sendToServer, got.sent, hserver]

end forward

namespace Echo
variable {places : Places} {inet : Inet} {m : Msgpack} {s t : Echo} {x : Exchange}
  {datagram : Datagram} {out : List Datagram}

theorem relay_eq {event : Event} {proxy : State} {send : Send}
    (h : UdpProxy.step inet m.toReader s.proxy event = some proxy)
    (hs : proxy.sent = s.proxy.sent ++ [send]) :
    s.relay places inet m event = ({ s with proxy := proxy }, sendOn places send) := by
  rw [relay, h]
  dsimp only
  rw [hs, List.drop_left, List.flatMap_singleton]

theorem transmit_cases (places : Places) (datagram : Datagram) :
    transmit places datagram = [datagram] ∨ transmit places datagram = [] := by
  unfold transmit
  split
  · exact .inl rfl
  · exact .inr rfl

theorem sendOn_cases (places : Places) (send : Send) :
    (∃ src, places.socket send.agent.handle = some src ∧
      sendOn places send = transmit places ⟨src, send.addr, send.buf⟩) ∨ sendOn places send = [] := by
  unfold sendOn
  split
  case h_1 src hsrc => exact .inl ⟨src, hsrc, rfl⟩
  case h_2 => exact .inr rfl

/-- What an exchange sends next: nothing, or one datagram of its own. -/
def Next (places : Places) (inet : Inet) (m : Msgpack) (s : Echo) (x : Exchange)
    (out : List Datagram) : Prop :=
  out = [] ∨ ∃ datagram, out = [datagram] ∧ Carries places inet m s x datagram

theorem next_transmit (h : Carries places inet m s x datagram) :
    Next places inet m s x (transmit places datagram) := by
  rcases transmit_cases places datagram with he | he
  · exact .inr ⟨datagram, he, h⟩
  · exact .inl he

theorem next_sendOn {send : Send} (h : ∀ src, places.socket send.agent.handle = some src →
    Carries places inet m s x ⟨src, send.addr, send.buf⟩) :
    Next places inet m s x (sendOn places send) := by
  rcases sendOn_cases places send with ⟨src, hsrc, he⟩ | he
  · rw [he]
    exact next_transmit (h src hsrc)
  · exact .inl he

/-- The datagram has gone on its way, or has come to its client. -/
structure Received (places : Places) (inet : Inet) (m : Msgpack) (s t : Echo) (x : Exchange)
    (datagram : Datagram) (out : List Datagram) : Prop where
  keyed : Keyed inet t.proxy
  agents : s.proxy.agents <+: t.proxy.agents
  requested : t.requested = s.requested
  ends : t.received = s.received ∧ Next places inet m t x out ∨
    out = [] ∧ t.received = s.received ++ [datagram] ∧
      ∃ src, Serving places inet s x src ∧ datagram = ⟨src, x.client, x.message⟩

section receive
variable {mem : Memory}

theorem receive_nil (h : datagram.data = []) : s.receive places inet m mem datagram = (s, []) :=
  if_pos h

theorem receive_proxy (h : datagram.data ≠ []) (hp : places.host datagram.dst = .proxy) :
    s.receive places inet m mem datagram =
      s.relay places inet m (.datagram datagram.src mem datagram.data) := by
  rw [receive, if_neg h, hp]

theorem receive_server (h : datagram.data ≠ []) (hs : places.host datagram.dst = .server) :
    s.receive places inet m mem datagram =
      (s, transmit places ⟨datagram.dst, datagram.src, datagram.data⟩) := by
  rw [receive, if_neg h, hs]

theorem receive_agent {handle : Nat} (h : datagram.data ≠ [])
    (ha : places.host datagram.dst = .agent handle) :
    s.receive places inet m mem datagram = s.relay places inet m (.reply handle datagram.data) := by
  rw [receive, if_neg h, ha]

theorem receive_client (h : datagram.data ≠ []) (hc : places.host datagram.dst = .client) :
    s.receive places inet m mem datagram =
      ({ s with received := s.received ++ [datagram] }, []) := by
  rw [receive, if_neg h, hc]

/-- A wish at the proxy goes on to the server through an agent of its client. -/
theorem relay_wish (hk : Keyed inet s.proxy) (client : SockaddrIn) (wish : Wish) (mem : Memory) :
    ∃ (proxy : State) (agent : UdpAgent),
      s.relay places inet m (.datagram client mem (wish.encode m)) =
        ({ s with proxy := proxy }, sendOn places ⟨agent, wish.server inet, wish.message⟩) ∧
      Keyed inet proxy ∧ s.proxy.agents <+: proxy.agents ∧
      agent.handle ≤ s.proxy.agents.length ∧ proxy.agents[agent.handle]? = some agent ∧
      (agent.ca inet).ipv4 = client ∧ (agent.sa inet).ipv4 = wish.server inet := by
  obtain ⟨hkt, hat, agent, hle, hsent, hfound, hca, hsa⟩ := hk.forward client wish.toRequest
  have hstep : UdpProxy.step inet m.toReader s.proxy (.datagram client mem (wish.encode m)) =
      some (s.proxy.forward inet (.ofSockaddr inet client) wish.toRequest) := by
    rw [UdpProxy.step, Wish.unpack_encode, if_neg (wish.encode_ne_nil m)]
  exact ⟨_, agent, relay_eq hstep hsent, hkt, hat, hle, hfound, hca, hsa⟩

/-- An answer at an agent goes on to the agent's client. -/
theorem relay_answer {agent : UdpAgent} (h : s.proxy.agents[agent.handle]? = some agent)
    {data : List UInt8} (hd : data ≠ []) : s.relay places inet m (.reply agent.handle data) =
      ({ s with proxy := s.proxy.sendToClient inet agent data },
        sendOn places ⟨agent, (agent.ca inet).ipv4, data⟩) := by
  have hstep : UdpProxy.step inet m.toReader s.proxy (.reply agent.handle data) =
      some (s.proxy.sendToClient inet agent data) := by
    rw [UdpProxy.step, h, Option.map_some, if_neg hd]
  exact relay_eq hstep rfl

/-- The spec lemma of `receive`. -/
theorem receive_carried (hk : Keyed inet s.proxy) (hc : places.host x.client = .client)
    (hs : places.host x.server = .server) (hd : Carries places inet m s x datagram)
    (hr : s.receive places inet m mem datagram = (t, out)) :
    Received places inet m s t x datagram out := by
  by_cases hne : datagram.data = []
  · obtain ⟨rfl, rfl⟩ := Prod.mk.inj ((receive_nil hne).symm.trans hr)
    exact ⟨hk, List.prefix_refl _, rfl, .inl ⟨rfl, .inl rfl⟩⟩
  cases hd with
  | @request wish hserver hm =>
    obtain ⟨proxy, agent, hrelay, hkt, hat, -, hfound, hca, hsa⟩ := relay_wish hk x.client wish mem
    obtain ⟨rfl, rfl⟩ := Prod.mk.inj
      (((receive_proxy hne places.host_proxy).trans hrelay).symm.trans hr)
    refine ⟨hkt, hat, rfl, .inl ⟨rfl, next_sendOn fun src hsrc => ?_⟩⟩
    show Carries places inet m _ x ⟨src, wish.server inet, wish.message⟩
    rw [hserver, hm]
    exact .forwarded ⟨agent, hfound, hsrc, hca, hsa.trans hserver⟩
  | forwarded h =>
    obtain ⟨rfl, rfl⟩ := Prod.mk.inj ((receive_server hne hs).symm.trans hr)
    exact ⟨hk, List.prefix_refl _, rfl, .inl ⟨rfl, next_transmit (.answer h)⟩⟩
  | @answer src h =>
    obtain ⟨agent, hi, hsock, hca, hsa⟩ := h
    obtain ⟨rfl, rfl⟩ := Prod.mk.inj
      (((receive_agent hne (places.host_socket _ _ hsock)).trans (relay_answer hi hne)).symm.trans hr)
    refine ⟨hk.of_sent _, List.prefix_refl _, rfl, .inl ⟨rfl, next_sendOn fun src' hsrc => ?_⟩⟩
    obtain rfl := Option.some.inj (hsock.symm.trans hsrc)
    show Carries places inet m _ x ⟨src, (agent.ca inet).ipv4, x.message⟩
    rw [hca]
    exact .reply ⟨agent, hi, hsock, hca, hsa⟩
  | reply h =>
    obtain ⟨rfl, rfl⟩ := Prod.mk.inj ((receive_client hne hc).symm.trans hr)
    exact ⟨hk, List.prefix_refl _, rfl, .inr ⟨rfl, rfl, _, h, rfl⟩⟩

end receive

/-- The client asks for a server. -/
def NamesServer (places : Places) (inet : Inet) (_ : Echo) : SockaddrIn × Wish → Prop
  | (_, wish) => places.host (wish.server inet) = .server

theorem act_cases {client : SockaddrIn} {wish : Wish}
    (h : s.act places m (client, wish) = some (t, out)) : places.host client = .client ∧
      t = { s with requested := s.requested ++ [(client, wish)] } ∧
      out = transmit places ⟨client, places.proxy, wish.encode m⟩ := by
  obtain ⟨hc, h⟩ := Option.ite_none_right_eq_some.mp h
  obtain ⟨rfl, rfl⟩ := Prod.mk.inj (Option.some.inj h)
  exact ⟨hc, rfl, rfl⟩

theorem fair_new (places : Places) (inet : Inet) : Fair places inet new where
  keyed := keyed_new inet
  asked _ h := absurd h List.not_mem_nil
  received _ h := absurd h List.not_mem_nil

theorem Fair.of_grows (h : Fair places inet s) (hk : Keyed inet t.proxy) (hg : Grows s t)
    (hr : t.received = s.received) (ha : ∀ x ∈ t.asked inet, x ∈ s.asked inet ∨
      places.host x.client = .client ∧ places.host x.server = .server) : Fair places inet t where
  keyed := hk
  asked x hx := (ha x hx).elim (h.asked x) id
  received datagram hm := by
    obtain ⟨x, hx, src, hs, hd⟩ := h.received datagram (hr ▸ hm)
    exact ⟨x, hg.asked.subset hx, src, hs.mono hg.1, hd⟩

theorem Received.fair (h : Received places inet m s t x datagram out) (hf : Fair places inet s)
    (hx : x ∈ s.asked inet) : Fair places inet t ∧ Grows s t ∧
      ∀ datagram ∈ out, Due places inet m t datagram := by
  have hasked : t.asked inet = s.asked inet := by rw [asked, h.requested, asked]
  have hg : Grows s t := ⟨h.agents, h.requested ▸ List.prefix_refl _⟩
  rcases h.ends with ⟨hr, hn⟩ | ⟨rfl, hr, src, hs, hd⟩
  · refine ⟨hf.of_grows h.keyed hg hr fun y hy => .inl (hasked ▸ hy), hg, fun datagram hm => ?_⟩
    rcases hn with rfl | ⟨next, rfl, hn⟩
    · cases hm
    · obtain rfl := List.mem_singleton.mp hm
      exact ⟨x, hasked ▸ hx, hn⟩
  · refine ⟨⟨h.keyed, fun y hy => hf.asked y (hasked ▸ hy), fun datagram' hm => ?_⟩, hg, nofun⟩
    rw [hr] at hm
    rcases List.mem_append.mp hm with hm | hm
    · obtain ⟨y, hy, src', hs', hd'⟩ := hf.received datagram' hm
      exact ⟨y, hasked ▸ hy, src', hs'.mono h.agents, hd'⟩
    · obtain rfl := List.mem_singleton.mp hm
      exact ⟨x, hasked ▸ hx, src, hs.mono h.agents, hd⟩

theorem keeps (places : Places) (inet : Inet) (m : Msgpack) :
    Network.Keeps (hosts places inet m) (NamesServer places inet) (Fair places inet)
      (Due places inet m) Grows where
  act s event t out hf hserver h := by
    obtain ⟨client, wish⟩ := event
    obtain ⟨hc, rfl, rfl⟩ := act_cases h
    have hg : Grows s { s with requested := s.requested ++ [(client, wish)] } :=
      ⟨List.prefix_refl _, List.prefix_append _ _⟩
    have hasked : asked inet { s with requested := s.requested ++ [(client, wish)] } =
        s.asked inet ++ [⟨client, wish.server inet, wish.message⟩] := List.map_append
    refine ⟨hf.of_grows hf.keyed hg rfl fun x hx => ?_, hg, fun datagram hm => ?_⟩
    · rw [hasked] at hx
      rcases List.mem_append.mp hx with hx | hx
      · exact .inl hx
      · obtain rfl := List.mem_singleton.mp hx
        exact .inr ⟨hc, hserver⟩
    · refine ⟨⟨client, wish.server inet, wish.message⟩, ?_, ?_⟩
      · rw [hasked]
        exact List.mem_append_right _ (List.mem_singleton.mpr rfl)
      · rcases transmit_cases places ⟨client, places.proxy, wish.encode m⟩ with he | he
        · rw [he] at hm
          obtain rfl := List.mem_singleton.mp hm
          exact .request rfl rfl
        · rw [he] at hm
          cases hm
  receive s mem datagram t out hf hd h := by
    obtain ⟨x, hx, hd⟩ := hd
    obtain ⟨hc, hs⟩ := hf.asked x hx
    exact (receive_carried hf.keyed hc hs hd h).fair hf hx
  grows s t datagram hg hd := hd.mono hg

/-- The exchanges some datagrams are part of. -/
def exchanges (places : Places) (inet : Inet) (m : Msgpack) (s : Echo)
    (datagrams : Multiset Datagram) : Multiset Exchange :=
  datagrams.filterMap (exchange places inet m s)

theorem exchanges_cons (datagram : Datagram) (datagrams : Multiset Datagram) :
    exchanges places inet m s (datagram ::ₘ datagrams) =
      exchanges places inet m s {datagram} + exchanges places inet m s datagrams := by
  rw [exchanges, ← Multiset.singleton_add, Multiset.filterMap_add]
  rfl

theorem sum_exchanges (datagrams : Multiset Datagram) :
    (datagrams.map fun datagram => exchanges places inet m s {datagram}).sum =
      exchanges places inet m s datagrams := by
  induction datagrams using Multiset.induction with
  | empty => rfl
  | cons datagram datagrams ih => rw [Multiset.map_cons, Multiset.sum_cons, ih, ← exchanges_cons]

theorem Fair.exchanges_eq (hf : Fair places inet s) (hx : x ∈ s.asked inet)
    (hd : Carries places inet m s x datagram) : exchanges places inet m s {datagram} = {x} := by
  obtain ⟨hc, hs⟩ := hf.asked x hx
  exact Multiset.filterMap_cons_some _ _ _ (hd.exchange_eq hc hs)

theorem Fair.due_received (hf : Fair places inet s) (hm : datagram ∈ s.received) :
    Due places inet m s datagram := by
  obtain ⟨x, hx, src, hs, rfl⟩ := hf.received datagram hm
  exact ⟨x, hx, .reply hs⟩

/-- New agents do not change what a datagram is part of. -/
theorem Fair.exchange_grows (hf : Fair places inet s) (hg : Grows s t)
    (hd : Due places inet m s datagram) :
    exchange places inet m t datagram = exchange places inet m s datagram := by
  obtain ⟨x, hx, hd⟩ := hd
  obtain ⟨hc, hs⟩ := hf.asked x hx
  rw [hd.exchange_eq hc hs, (hd.mono hg.1).exchange_eq hc hs]

theorem Fair.held_grows (hf : Fair places inet s) (hg : Grows s t) :
    exchanges places inet m t s.received = exchanges places inet m s s.received := by
  rw [exchanges, exchanges, Multiset.filterMap_coe, Multiset.filterMap_coe]
  exact congrArg _ (List.filterMap_congr fun datagram hm => hf.exchange_grows hg (hf.due_received hm))

theorem Next.sum_le (hn : Next places inet m t x out) (hf : Fair places inet t)
    (hx : x ∈ t.asked inet) :
    (out.map fun datagram => exchanges places inet m t {datagram}).sum ≤ {x} := by
  rcases hn with rfl | ⟨datagram, rfl, hd⟩
  · exact Multiset.zero_le _
  · rw [List.map_singleton, List.sum_singleton, hf.exchanges_eq hx hd]

theorem pays (places : Places) (inet : Inet) (m : Msgpack) :
    Network.Pays (hosts places inet m) (NamesServer places inet) (Fair places inet)
      (Due places inet m) Grows (fun s datagram => exchanges places inet m s {datagram})
      (fun s => exchanges places inet m s s.received) (fun s => s.asked inet) where
  toKeeps := keeps places inet m
  pays_act s event t out hf hserver h := by
    obtain ⟨hft, -, -⟩ := (keeps places inet m).act s event t out hf hserver h
    obtain ⟨client, wish⟩ := event
    obtain ⟨-, rfl, rfl⟩ := act_cases h
    let x : Exchange := ⟨client, wish.server inet, wish.message⟩
    have hasked : asked inet { s with requested := s.requested ++ [(client, wish)] } =
        s.asked inet ++ [x] := List.map_append
    refine ⟨{x}, ?_, ?_⟩
    · show (↑(asked inet _) : Multiset Exchange) = _
      rw [hasked, ← Multiset.coe_add]
      rfl
    · refine add_le_add (le_refl _) ((next_transmit (.request rfl rfl)).sum_le hft ?_)
      rw [hasked]
      exact List.mem_append_right _ (List.mem_singleton.mpr rfl)
  pays_receive s mem datagram t out hf hd h := by
    obtain ⟨x, hx, hd⟩ := hd
    obtain ⟨hc, hs⟩ := hf.asked x hx
    have hrec := receive_carried hf.keyed hc hs hd h
    obtain ⟨hft, hg, -⟩ := hrec.fair hf hx
    have hasked : t.asked inet = s.asked inet := by rw [asked, hrec.requested, asked]
    refine ⟨congrArg _ hasked, ?_⟩
    rw [hf.exchanges_eq hx hd]
    rcases hrec.ends with ⟨hr, hn⟩ | ⟨rfl, hr, src, hserving, rfl⟩
    · rw [hr, hf.held_grows hg]
      exact add_le_add (le_refl _) (hn.sum_le hft (hasked ▸ hx))
    · have hheld : exchanges places inet m t t.received =
          exchanges places inet m s s.received + {x} := by
        rw [hr, ← Multiset.coe_add, exchanges, Multiset.filterMap_add]
        exact congrArg₂ _ (hf.held_grows hg) (hft.exchanges_eq (hasked ▸ hx) (hd.mono hg.1))
      rw [List.map_nil, List.sum_nil, add_zero, hheld]
  same s t datagram hf hg hd := by
    obtain ⟨x, hx, hd⟩ := hd
    obtain ⟨hc, hs⟩ := hf.asked x hx
    rw [hf.exchanges_eq hx hd]
    exact Multiset.filterMap_cons_some _ _ _ ((hd.mono hg.1).exchange_eq hc hs)

/-- In every run in which clients ask for servers only: what a client receives is a message of its
own, from an agent that serves this client and the server it has asked for; and all exchanges that
have come to their end or are on their way were asked for, each as often, or with as many copies. -/
theorem exchanges_run (places : Places) (inet : Inet) (m : Msgpack)
    (events : List (Network.Event (SockaddrIn × Wish) Memory SockaddrIn (List UInt8)))
    {t : Network Echo SockaddrIn (List UInt8)}
    (hc : (Network.step (hosts places inet m)).Throughout
      (Network.Allowed (NamesServer places inet)) (.start new) events)
    (ht : (Network.step (hosts places inet m)).run (.start new) events = some t) :
    (∀ datagram ∈ t.hosts.received, ∃ x ∈ t.hosts.asked inet, ∃ src,
      Serving places inet t.hosts x src ∧ datagram = ⟨src, x.client, x.message⟩) ∧
    exchanges places inet m t.hosts t.hosts.received + exchanges places inet m t.hosts t.packets ≤
      t.hosts.asked inet + exchanges places inet m t.hosts t.copied := by
  have hpays := pays places inet m
  have hstart : Network.Sound (Fair places inet) (Due places inet m)
      (Network.start new : Network Echo SockaddrIn (List UInt8)) :=
    Network.sound_start (fair_new places inet)
  refine ⟨(hpays.toKeeps.run hstart hc ht).hosts.received, ?_⟩
  have hbalance := hpays.run hstart (Network.balanced_start (le_refl _)) hc ht
  rwa [Network.Balanced, sum_exchanges, sum_exchanges] at hbalance

/-- One machine: the proxy at port 4444, a server at 5555, agents from 7000 on, and clients. -/
def loopback : Places where
  host addr :=
    if addr.sinPort = 4444 then .proxy
    else if addr.sinPort = 5555 then .server
    else if 7000 ≤ addr.sinPort.toNat then .agent (addr.sinPort.toNat - 7000) else .client
  proxy := ⟨0x0100007f, 4444⟩
  socket handle := if handle < 1000 then some ⟨0x0100007f, UInt16.ofNat (7000 + handle)⟩ else none
  longest := 65507
  host_proxy := rfl
  host_socket handle addr h := by
    obtain ⟨hlt, h⟩ := Option.ite_none_right_eq_some.mp h
    obtain rfl := Option.some.inj h
    have hport : (UInt16.ofNat (7000 + handle)).toNat = 7000 + handle :=
      UInt16.toNat_ofNat_of_lt' (Nat.lt_trans (Nat.add_lt_add_left hlt 7000) (by decide))
    have hne (port : UInt16) (h : port.toNat < 7000) : UInt16.ofNat (7000 + handle) ≠ port := by
      rintro rfl
      omega
    simp only [if_neg (hne 4444 (by decide)), if_neg (hne 5555 (by decide)), hport,
      Nat.le_add_right, if_true, Nat.add_sub_cancel_left]

def hello : Wish where
  ip := [49, 50, 55, 46, 48, 46, 48, 46, 50]
  port := 5555
  message := [104]
  ip_length := by decide
  message_length := by decide

/-- A client's request arrives twice, and one of the two answers is lost. -/
theorem exchanges_run_copy :
    let mem : Memory := ⟨0, 0, fun _ => 0, fun _ => []⟩
    let client : SockaddrIn := ⟨0x0100007f, 4000⟩
    let agent : SockaddrIn := ⟨0x0100007f, 7000⟩
    let server : SockaddrIn := ⟨0x0200007f, 5555⟩
    let asks : Datagram := ⟨client, loopback.proxy, hello.encode Format.msgpack⟩
    let events := [.act (client, hello), .copy asks, .deliver mem asks, .deliver mem asks,
      .deliver mem ⟨agent, server, [104]⟩, .deliver mem ⟨agent, server, [104]⟩,
      .lose ⟨server, agent, [104]⟩, .deliver mem ⟨server, agent, [104]⟩,
      .deliver mem ⟨agent, client, [104]⟩]
    ∃ t, (Network.step (hosts loopback .dotted Format.msgpack)).run (.start new) events = some t ∧
      exchanges loopback .dotted Format.msgpack t.hosts t.hosts.received +
          exchanges loopback .dotted Format.msgpack t.hosts t.packets ≤
        t.hosts.asked .dotted + exchanges loopback .dotted Format.msgpack t.hosts t.copied := by
  intro mem client agent server asks events
  have hc : (Network.step (hosts loopback .dotted Format.msgpack)).Throughout
      (Network.Allowed (NamesServer loopback .dotted)) (.start new) events := by
    apply Step.throughout_of_forall
    intro event hm s
    match event with
    | .act event =>
      obtain rfl : event = (client, hello) := by simpa [events] using hm
      exact (by decide +kernel : loopback.host (hello.server .dotted) = .server)
    | .deliver .. | .lose .. | .copy .. => exact trivial
  have hs : ((Network.step (hosts loopback .dotted Format.msgpack)).run (.start new)
      events).isSome = true := by decide +kernel
  obtain ⟨t, ht⟩ := Option.isSome_iff_exists.mp hs
  exact ⟨t, ht, (exchanges_run loopback .dotted Format.msgpack events hc ht).2⟩

theorem keyed_relay (h : Keyed inet s.proxy) (event : Event) :
    Keyed inet (s.relay places inet m event).1.proxy := by
  unfold relay
  split
  case h_1 proxy hp => exact (step_serves h hp).1
  case h_2 => exact h

/-- Whatever clients ask for, the table of the proxy is in order. -/
theorem keeps_keyed (places : Places) (inet : Inet) (m : Msgpack) :
    Network.Keeps (hosts places inet m) (fun _ _ => True) (fun s => Keyed inet s.proxy)
      (fun _ _ => True) (fun _ _ => True) where
  act s event t out hk _ h := by
    obtain ⟨client, wish⟩ := event
    obtain ⟨-, rfl, -⟩ := act_cases h
    exact ⟨hk, trivial, fun _ _ => trivial⟩
  receive s mem datagram t out hk _ h := by
    refine ⟨?_, trivial, fun _ _ => trivial⟩
    obtain rfl : (s.receive places inet m mem datagram).1 = t := congrArg Prod.fst h
    unfold receive
    split
    next => exact hk
    next =>
      split
      · exact hk
      · exact keyed_relay hk _
      · exact hk
      · exact keyed_relay hk _
      · exact hk
  grows _ _ _ _ _ := trivial

theorem transmit_of_le (h : datagram.data.length ≤ places.longest) :
    transmit places datagram = [datagram] := if_pos h

theorem sendOn_of_socket {send : Send} {src : SockaddrIn}
    (hsrc : places.socket send.agent.handle = some src) (h : send.buf.length ≤ places.longest) :
    sendOn places send = [⟨src, send.addr, send.buf⟩] := by
  rw [sendOn, hsrc]
  exact transmit_of_le h

/-- In every state of every run: a wish for a message from a server, with a socket left for it and
bytes the network takes, comes back to its client over four datagrams, and leaves all others on
their way. -/
theorem echoed (places : Places) (inet : Inet) (m : Msgpack)
    (events : List (Network.Event (SockaddrIn × Wish) Memory SockaddrIn (List UInt8)))
    {s : Network Echo SockaddrIn (List UInt8)}
    (hs : (Network.step (hosts places inet m)).run (.start new) events = some s)
    (client : SockaddrIn) (wish : Wish) (mem : Memory) (hclient : places.host client = .client)
    (hserver : places.host (wish.server inet) = .server) (hm : wish.message ≠ [])
    (hwish : (wish.encode m).length ≤ places.longest)
    (hmessage : wish.message.length ≤ places.longest)
    (hsocket : ∀ handle ≤ s.hosts.proxy.agents.length, places.socket handle ≠ none) :
    ∃ src t, (Network.step (hosts places inet m)).run s (.act (client, wish) ::
        [⟨client, places.proxy, wish.encode m⟩, ⟨src, wish.server inet, wish.message⟩,
          ⟨wish.server inet, src, wish.message⟩, ⟨src, client, wish.message⟩].map (.deliver mem)) =
        some t ∧
      t.hosts.received = s.hosts.received ++ [⟨src, client, wish.message⟩] ∧
      t.packets = s.packets := by
  have hk : Keyed inet s.hosts.proxy :=
    ((keeps_keyed places inet m).run (Network.sound_start (keyed_new inet))
      (Step.throughout_of_forall fun event _ s => by cases event <;> exact trivial) hs).hosts
  let u : Echo := { s.hosts with requested := s.hosts.requested ++ [(client, wish)] }
  have hact : act places m s.hosts (client, wish) =
      some (u, [⟨client, places.proxy, wish.encode m⟩]) := by
    rw [act, if_pos hclient, transmit_of_le hwish]
  have hku : Keyed inet u.proxy := hk
  obtain ⟨proxy, agent, hrelay, -, -, hle, hfound, hca, -⟩ := relay_wish hku client wish mem
  obtain ⟨src, hsrc⟩ := Option.ne_none_iff_exists'.mp (hsocket agent.handle hle)
  let asks : Datagram := ⟨client, places.proxy, wish.encode m⟩
  let forwarded : Datagram := ⟨src, wish.server inet, wish.message⟩
  let answer : Datagram := ⟨wish.server inet, src, wish.message⟩
  let reply : Datagram := ⟨src, client, wish.message⟩
  let v : Echo := { u with proxy := proxy }
  let w : Echo := { v with proxy := proxy.sendToClient inet agent wish.message }
  have hproxy : u.receive places inet m mem asks = (v, [forwarded]) := by
    rw [receive_proxy (wish.encode_ne_nil m) places.host_proxy, hrelay, sendOn_of_socket hsrc hmessage]
  have hecho : v.receive places inet m mem forwarded = (v, [answer]) := by
    rw [receive_server hm hserver, transmit_of_le hmessage]
  have hagent : v.receive places inet m mem answer = (w, [reply]) := by
    have hreply : v.relay places inet m (.reply agent.handle wish.message) = _ :=
      relay_answer hfound hm
    rw [receive_agent hm (places.host_socket _ _ hsrc), hreply, sendOn_of_socket hsrc hmessage, hca]
  have hback : w.receive places inet m mem reply =
      ({ w with received := w.received ++ [reply] }, []) := receive_client hm hclient
  refine ⟨src, ⟨{ w with received := w.received ++ [reply] }, s.packets + ([] : List Datagram),
    s.copied⟩, ?_, rfl, add_zero _⟩
  refine Step.run_cons_eq_some.mpr ⟨⟨u, s.packets + ([asks] : List Datagram), s.copied⟩, ?_, ?_⟩
  · exact congrArg (Option.map _) hact
  refine Step.run_cons_eq_some.mpr ⟨_, Network.step_deliver_sent _ _ hproxy, ?_⟩
  refine Step.run_cons_eq_some.mpr ⟨_, Network.step_deliver_sent _ _ hecho, ?_⟩
  refine Step.run_cons_eq_some.mpr ⟨_, Network.step_deliver_sent _ _ hagent, ?_⟩
  exact Step.run_cons_eq_some.mpr ⟨_, Network.step_deliver_sent _ _ hback, rfl⟩

theorem echoed_hello :
    let client : SockaddrIn := ⟨0x0100007f, 4000⟩
    let mem : Memory := ⟨0, 0, fun _ => 0, fun _ => []⟩
    ∃ src t, (Network.step (hosts loopback .dotted Format.msgpack)).run (.start new)
        (.act (client, hello) :: [⟨client, loopback.proxy, hello.encode Format.msgpack⟩,
          ⟨src, hello.server .dotted, [104]⟩, ⟨hello.server .dotted, src, [104]⟩,
          ⟨src, client, [104]⟩].map (.deliver mem)) = some t ∧
      t.hosts.received = [⟨src, client, [104]⟩] ∧ t.packets = 0 :=
  echoed loopback .dotted Format.msgpack [] rfl ⟨0x0100007f, 4000⟩ hello _ (by decide +kernel)
    (by decide +kernel) (by decide) (by decide +kernel) (by decide) fun handle hle => by
      obtain rfl := Nat.le_zero.mp hle
      decide

end Echo
end AeProxy.Proxy.UdpProxy
