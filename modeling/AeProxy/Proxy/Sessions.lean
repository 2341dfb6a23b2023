import AeProxy.Proxy.Format
import AeProxy.Proxy.UdpProxy
import Mathlib.Data.List.Forall2

/-! One agent for each session: the text key of the table keeps sessions apart. -/
namespace AeProxy.Proxy.UdpProxy
open Lib

theorem notMem_signed {b : UInt8} (hb : 58 ≤ b.toNat) (i : Int) : b ∉ Lib.signed i := by
  intro h
  rcases mem_signed h with rfl | ⟨-, hd⟩
  · exact absurd hb (by decide)
  · omega

/-- The first `@` ends the client, and the last colon on each side begins a port. -/
theorem key_inj {cip cip' sip sip' : Text} {cport cport' sport sport' : Int32} (h : 64 ∉ cip)
    (h' : 64 ∉ cip') : key cip cport sip sport = key cip' cport' sip' sport' ↔
      cip = cip' ∧ cport = cport' ∧ sip = sip' ∧ sport = sport' := by
  have hcolon (i : Int32) : (58 : UInt8) ∉ Lib.signed i.toInt := notMem_signed (by decide) _
  have hclient {ip : Text} (h : 64 ∉ ip) (port : Int32) :
      (64 : UInt8) ∉ ip ++ 58 :: Lib.signed port.toInt := by
    rw [List.mem_append, List.mem_cons]
    rintro (hi | hc | hp)
    · exact h hi
    · exact absurd hc (by decide)
    · exact notMem_signed (by decide) _ hp
  have hkey (cip sip : Text) (cport sport : Int32) : key cip cport sip sport =
      (cip ++ 58 :: Lib.signed cport.toInt) ++ 64 :: (sip ++ 58 :: Lib.signed sport.toInt) := by
    rw [key, List.append_assoc, List.cons_append]
  have hport (i j : Int32) : Lib.signed i.toInt = Lib.signed j.toInt ↔ i = j :=
    signed_injective.eq_iff.trans Int32.toInt_inj
  rw [hkey, hkey, cut_first (hclient h cport) (hclient h' cport'),
    cut_last (hcolon cport) (hcolon cport'), cut_last (hcolon sport) (hcolon sport'), hport, hport,
    and_assoc]

/-- The agent was constructed with this client. -/
def OfClient (inet : Inet) (agent : UdpAgent) (peer : SockaddrIn) : Prop :=
  agent.cip = inet.ntoa peer.sinAddr ∧ agent.cport = Int32.ofNat peer.sinPort.toNat

theorem toUInt16_ofNat (port : UInt16) :
    (Int32.ofNat port.toNat).toUInt32.toUInt16 = port := by simp

section OfClient
variable {inet : Inet} {agent : UdpAgent} {peer peer' : SockaddrIn}

/-- An agent sends the replies to its client. -/
theorem OfClient.ca_ipv4 (h : OfClient inet agent peer) : (agent.ca inet).ipv4 = peer := by
  obtain ⟨hip, hport⟩ := h
  rw [UdpAgent.ca, SocketAddr.new, hip, hport, cStr_eq_self.mpr (inet.zero_notMem _),
    inet.ip4Addr_ntoa, toUInt16_ofNat]

theorem OfClient.at_notMem (h : OfClient inet agent peer) : 64 ∉ agent.cip :=
  h.1 ▸ inet.at_notMem _

end OfClient

/-- The table finds each agent under its own key and nothing else, the handles number the agents,
and every agent has a client. -/
structure Keyed (inet : Inet) (s : State) : Prop where
  handle : ∀ i agent, s.agents[i]? = some agent → UdpAgent.handle agent = i
  entry : ∀ k agent, s.session.lookup k = some agent →
    s.agents[agent.handle]? = some agent ∧ k = key agent.cip agent.cport agent.sip agent.sport
  stored : ∀ agent ∈ s.agents,
    s.session.lookup (key agent.cip agent.cport agent.sip agent.sport) = some agent
  client : ∀ agent ∈ s.agents, ∃ peer, OfClient inet agent peer

theorem keyed_new (inet : Inet) : Keyed inet .new where
  handle i agent h := by cases h
  entry k agent h := by cases h
  stored agent h := by cases h
  client agent h := by cases h

/-- What `get_agent` returns, and what it leaves of the state. -/
structure Got (inet : Inet) (s t : State) (agent : UdpAgent) (peer : SockaddrIn) (sip : Text)
    (sport : Int32) : Prop where
  keyed : Keyed inet t
  agents : s.agents <+: t.agents
  sent : t.sent = s.sent
  found : t.agents[agent.handle]? = some agent
  client : OfClient inet agent peer
  server : agent.sip = sip ∧ agent.sport = sport

theorem Keyed.insert {inet : Inet} {s : State} {agent : UdpAgent} {peer : SockaddrIn}
    (h : Keyed inet s) (hh : agent.handle = s.agents.length) (hc : OfClient inet agent peer)
    (hk : s.session.lookup (key agent.cip agent.cport agent.sip agent.sport) = none) :
    Keyed inet { s with
      session := s.session.insert (key agent.cip agent.cport agent.sip agent.sport) agent
      agents := s.agents ++ [agent] } where
  handle i a ha := by
    rw [List.getElem?_append] at ha
    split at ha
    case isTrue => exact h.handle i a ha
    case isFalse hi =>
      obtain ⟨hj, rfl⟩ := List.getElem?_eq_some_iff.mp ha
      simp at hj ⊢
      omega
  entry k a ha := by
    by_cases he : k = key agent.cip agent.cport agent.sip agent.sport
    · subst he
      rw [AList.lookup_insert] at ha
      obtain rfl := Option.some.inj ha
      exact ⟨by rw [hh]; exact List.getElem?_concat_length, rfl⟩
    · rw [AList.lookup_insert_ne he] at ha
      obtain ⟨hg, hk⟩ := h.entry k a ha
      exact ⟨List.getElem?_append_left (List.getElem?_eq_some_iff.mp hg).1 ▸ hg, hk⟩
  stored a ha := by
    rcases List.mem_append.mp ha with ha | ha
    · have hs := h.stored a ha
      rw [AList.lookup_insert_ne, hs]
      intro he
      rw [he, hk] at hs
      cases hs
    · obtain rfl := List.mem_singleton.mp ha
      exact AList.lookup_insert s.session
  client a ha := by
    rcases List.mem_append.mp ha with ha | ha
    · exact h.client a ha
    · obtain rfl := List.mem_singleton.mp ha
      exact ⟨peer, hc⟩

theorem Keyed.getAgent {inet : Inet} {s : State} (h : Keyed inet s) (peer : SockaddrIn) (sip : Text)
    (sport : Int32) :
    let got := s.getAgent (inet.ntoa peer.sinAddr) (Int32.ofNat peer.sinPort.toNat) sip sport
    Got inet s got.1 got.2 peer sip sport := by
  simp only [State.getAgent]
  split
  case h_1 agent hs =>
    obtain ⟨hg, hk⟩ := h.entry _ agent hs
    obtain ⟨p, hp⟩ := h.client agent (List.mem_of_getElem? hg)
    obtain ⟨hip, hport, hsip, hsport⟩ := (key_inj (inet.at_notMem _) hp.at_notMem).mp hk
    exact ⟨h, List.prefix_refl _, rfl, hg, ⟨hip.symm, hport.symm⟩, hsip.symm, hsport.symm⟩
  case h_2 hs =>
    let agent : UdpAgent := ⟨s.agents.length, inet.ntoa peer.sinAddr,
      Int32.ofNat peer.sinPort.toNat, sip, sport⟩
    have hc : OfClient inet agent peer := ⟨rfl, rfl⟩
    have hf : (s.agents ++ [agent])[agent.handle]? = some agent := List.getElem?_concat_length
    exact ⟨h.insert rfl hc hs, List.prefix_append _ _, rfl, hf, hc, rfl, rfl⟩

/-- String, integer, string, the ip a C string and the port an int. -/
def IsRequest (objs : List Object) (request : Request) : Prop :=
  ∃ port, objs = [.str request.ip, port, .str request.message] ∧
    port.integer? = some request.port.toInt ∧ 0 ∉ request.ip

theorem IsRequest.unpack {objs : List Object} {request : Request} (h : IsRequest objs request)
    (mem : Memory) : unpack mem objs = request := by
  obtain ⟨port, rfl, hp, -⟩ := h
  rw [unpack_three, Object.i64_toInt32 hp, Int32.ofInt_toInt]
  rfl

/-- The one send an event with bytes causes. A request goes through an agent constructed with exactly its
client and its server, a reply through the agent that has received it and to its client. -/
def Serves (inet : Inet) (unpacker : Unpacker) (agents : List UdpAgent) : Event → Send → Prop
  | .datagram peer _ data, send => ∀ request, IsRequest (unpacker.objects data) request →
    agents[send.agent.handle]? = some send.agent ∧ OfClient inet send.agent peer ∧
    send.agent.sip = request.ip ∧ send.agent.sport = request.port ∧
    send.addr = (send.agent.sa inet).ipv4 ∧ send.buf = request.message
  | .reply agent data, send => agents[agent]? = some send.agent ∧
    OfClient inet send.agent send.addr ∧ send.buf = data

theorem Serves.mono {inet : Inet} {unpacker : Unpacker} {agents agents' : List UdpAgent}
    {event : Event} {send : Send} (h : Serves inet unpacker agents event send)
    (ha : agents <+: agents') : Serves inet unpacker agents' event send := by
  have hget {i : Nat} {a : UdpAgent} (hi : agents[i]? = some a) : agents'[i]? = some a := by
    obtain ⟨more, rfl⟩ := ha
    rw [List.getElem?_append_left (List.getElem?_eq_some_iff.mp hi).1, hi]
  cases event with
  | datagram peer mem data =>
    intro request hr
    obtain ⟨hi, hs⟩ := h request hr
    exact ⟨hget hi, hs⟩
  | reply agent data => exact ⟨hget h.1, h.2⟩

section Run
variable {inet : Inet} {unpacker : Unpacker} {s t : State}

theorem Keyed.of_sent (h : Keyed inet s) (sent : List Send) : Keyed inet { s with sent := sent } :=
  ⟨h.handle, h.entry, h.stored, h.client⟩

theorem step_nil {event : Event} (hd : event.data = []) (hs : step inet unpacker s event = some t) :
    t = s := by
  cases event with
  | datagram peer mem data => exact (Option.some.inj ((congrArg some (if_pos hd)).symm.trans hs)).symm
  | reply agent data =>
    obtain ⟨a, -, rfl⟩ := Option.map_eq_some_iff.mp hs
    exact if_pos hd

/-- The one send of an event with bytes in it. -/
theorem step_sends {event : Event} (h : Keyed inet s) (hd : event.data ≠ [])
    (hs : step inet unpacker s event = some t) :
    Keyed inet t ∧ s.agents <+: t.agents ∧
      ∃ send, t.sent = s.sent ++ [send] ∧ Serves inet unpacker t.agents event send := by
  cases event with
  | datagram peer mem data =>
    obtain rfl := Option.some.inj ((congrArg some (if_neg hd)).symm.trans hs)
    let request := unpack mem (unpacker.objects data)
    have got := h.getAgent peer (cStr request.ip) request.port
    have hip : cStr (inet.ntoa peer.sinAddr) = inet.ntoa peer.sinAddr :=
      cStr_eq_self.mpr (inet.zero_notMem _)
    simp only [State.forward, SocketAddr.ofSockaddr, hip]
    refine ⟨got.keyed.of_sent _, got.agents, _, congrArg (· ++ _) got.sent, ?_⟩
    intro request' hr
    obtain rfl : request = request' := hr.unpack mem
    obtain ⟨port, -, -, hz⟩ := hr
    exact ⟨got.found, got.client, got.server.1.trans (cStr_eq_self.mpr hz), got.server.2, rfl, rfl⟩
  | reply agent data =>
    obtain ⟨a, ha, rfl⟩ := Option.map_eq_some_iff.mp hs
    change data ≠ [] at hd
    rw [if_neg hd]
    obtain ⟨peer, hp⟩ := h.client a (List.mem_of_getElem? ha)
    refine ⟨h.of_sent _, List.prefix_refl _, _, rfl, ha, ?_, rfl⟩
    rwa [hp.ca_ipv4]

theorem step_serves {event : Event} (h : Keyed inet s) (hs : step inet unpacker s event = some t) :
    Keyed inet t ∧ s.agents <+: t.agents ∧ ∃ sends, t.sent = s.sent ++ sends ∧
      List.Forall₂ (Serves inet unpacker t.agents) (heard [event]) sends := by
  by_cases hd : event.data = []
  · obtain rfl := step_nil hd hs
    refine ⟨h, List.prefix_refl _, [], (List.append_nil _).symm, ?_⟩
    rw [heard_empty hd]
    exact .nil
  · obtain ⟨hk, ha, send, hsent, hserves⟩ := step_sends h hd hs
    refine ⟨hk, ha, [send], hsent, ?_⟩
    rw [heard_bytes hd]
    exact .cons hserves .nil

theorem run_serves {events : List Event} (h : Keyed inet s)
    (hr : (step inet unpacker).run s events = some t) :
    Keyed inet t ∧ s.agents <+: t.agents ∧ ∃ sends, t.sent = s.sent ++ sends ∧
      List.Forall₂ (Serves inet unpacker t.agents) (heard events) sends := by
  induction events generalizing s with
  | nil =>
    cases hr
    exact ⟨h, List.prefix_refl _, [], (List.append_nil _).symm, .nil⟩
  | cons event events ih =>
    obtain ⟨u, hu, ht⟩ := Step.run_cons_eq_some.mp hr
    obtain ⟨hk, ha, sends, hsent, hserves⟩ := step_serves h hu
    obtain ⟨hkt, hat, sends', hsent', hserves'⟩ := ih hk ht
    refine ⟨hkt, ha.trans hat, sends ++ sends', ?_, ?_⟩
    · rw [hsent', hsent, List.append_assoc]
    · rw [heard_cons]
      exact List.rel_append (hserves.imp fun _ _ hs => hs.mono hat) hserves'

end Run

/-- What a run keeps apart: each event with bytes in it has its send, and two requests go through the
same agent exactly if they agree in client and server. -/
structure Isolated (inet : Inet) (unpacker : Unpacker) (events : List Event) (s : State) : Prop where
  serves : List.Forall₂ (Serves inet unpacker s.agents) (heard events) s.sent
  same : ∀ peer mem data send peer' mem' data' send' request request',
    (Event.datagram peer mem data, send) ∈ (heard events).zip s.sent →
    (Event.datagram peer' mem' data', send') ∈ (heard events).zip s.sent →
    IsRequest (unpacker.objects data) request → IsRequest (unpacker.objects data') request' →
    (send.agent.handle = send'.agent.handle ↔
      inet.ntoa peer.sinAddr = inet.ntoa peer'.sinAddr ∧ peer.sinPort = peer'.sinPort ∧
        request.ip = request'.ip ∧ request.port = request'.port)

theorem Keyed.handle_eq_iff {inet : Inet} {s : State} (h : Keyed inet s) {a b : UdpAgent}
    (ha : s.agents[a.handle]? = some a) (hb : s.agents[b.handle]? = some b) :
    a.handle = b.handle ↔
      a.cip = b.cip ∧ a.cport = b.cport ∧ a.sip = b.sip ∧ a.sport = b.sport := by
  constructor
  · intro he
    rw [he] at ha
    obtain rfl := Option.some.inj (ha.symm.trans hb)
    exact ⟨rfl, rfl, rfl, rfl⟩
  · rintro ⟨hip, hport, hsip, hsport⟩
    have hs := h.stored a (List.mem_of_getElem? ha)
    rw [hip, hport, hsip, hsport, h.stored b (List.mem_of_getElem? hb)] at hs
    rw [Option.some.inj hs]

/-- In every run datagrams share an agent exactly within a session, the agent is that of the
session, and replies go to its client alone. -/
theorem sessions_isolated (inet : Inet) (unpacker : Unpacker) (events : List Event) (s : State)
    (hr : (step inet unpacker).run .new events = some s) : Isolated inet unpacker events s := by
  obtain ⟨hk, -, sends, hsent, hall⟩ := run_serves (keyed_new inet) hr
  obtain rfl : s.sent = sends := hsent
  refine ⟨hall, ?_⟩
  intro peer mem data send peer' mem' data' send' request request' hz hz' hq hq'
  obtain ⟨hi, hc, hsip, hsport, -⟩ := List.forall₂_zip hall hz request hq
  obtain ⟨hi', hc', hsip', hsport', -⟩ := List.forall₂_zip hall hz' request' hq'
  have hport : Int32.ofNat peer.sinPort.toNat = Int32.ofNat peer'.sinPort.toNat ↔
      peer.sinPort = peer'.sinPort := by
    constructor
    · intro he
      rw [← toUInt16_ofNat peer.sinPort, he, toUInt16_ofNat]
    · exact congrArg fun port : UInt16 => Int32.ofNat port.toNat
  rw [hk.handle_eq_iff hi hi', hc.1, hc.2, hc'.1, hc'.2, hsip, hsip', hsport, hsport', hport]

/-- `127.0.0.1:4444` asks for port 80 of `1.2.3.4`, gets a reply, and asks for port 81. -/
theorem sessions_isolated_reply :
    let mem : Memory := ⟨0, 0, fun _ => 0, fun _ => []⟩
    let peer : SockaddrIn := ⟨0x0100007f, 4444⟩
    let ip := [167, 49, 46, 50, 46, 51, 46, 52]
    let events := [Event.datagram peer mem (ip ++ [80, 161, 97]), .reply 0 [98],
      .datagram peer mem (ip ++ [81, 161, 97])]
    ∃ s, (step .dotted Format.msgpack.toReader).run .new events = some s ∧
      Isolated .dotted Format.msgpack.toReader events s :=
  ⟨_, rfl, sessions_isolated _ _ _ _ rfl⟩

end AeProxy.Proxy.UdpProxy
