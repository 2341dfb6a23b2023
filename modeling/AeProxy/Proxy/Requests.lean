import AeProxy.Proxy.Format
import AeProxy.Proxy.TcpProxy
import AeProxy.Proxy.UdpProxy

/-! Which lists of objects the proxies act on. The loops of `unpack` look neither at the types nor
at the number of the objects. -/
namespace AeProxy.Proxy.Requests
open Lib

/-- Integer zero, string, integer, string. -/
def IsTcpRequest : List Object → Prop
  | [command, ip, port, message] => command.integer? = some 0 ∧ ip.str?.isSome ∧
    port.integer?.isSome ∧ message.str?.isSome
  | _ => False

/-- String, integer, string. -/
def IsUdpRequest : List Object → Prop
  | [ip, port, message] => ip.str?.isSome ∧ port.integer?.isSome ∧ message.str?.isSome
  | _ => False

/-- Unless the list is a request, no server is contacted and the session table stays. -/
def TcpGuarded (objs : List Object) (before behind : TcpProxy.State) : Prop :=
  IsTcpRequest objs ∨ behind.agents = before.agents ∧ behind.session = before.session

def UdpGuarded (objs : List Object) (before behind : UdpProxy.State) : Prop :=
  IsUdpRequest objs ∨ behind.sent = before.sent ∧ behind.session = before.session

/-- The integer in front of the list, whatever the type of the object there. -/
def front (mem : Memory) : List Object → Int32
  | [] => mem.command
  | obj :: _ => (obj.i64 (mem.i64 0)).toInt32

theorem unpack_command_eq_front (mem : Memory) (objs : List Object) :
    (TcpProxy.unpack mem objs).command = front mem objs := by
  cases objs with
  | nil => rfl
  | cons obj objs => exact TcpProxy.unpack_command obj

theorem onMessage_agent (client : Text) (request : TcpProxy.Request) :
    (TcpProxy.onMessage client request).agent = none ↔ request.command ≠ 0 := by
  rw [TcpProxy.onMessage]
  by_cases h : request.command = 0
  · simp [h]
  · simp [h]

/-- The callback contacts a server for every zero in front. -/
theorem message_agents (unpacker : Unpacker) (s : TcpProxy.State) (client : Text) (mem : Memory)
    (data : List UInt8) :
    ∃ t, TcpProxy.step unpacker s (.message client mem data) = some t ∧
      t.session = s.session ∧
      (t.agents = s.agents ↔ front mem (unpacker.objects data) ≠ 0) := by
  refine ⟨_, rfl, rfl, ?_⟩
  rw [TcpProxy.State.agents, List.filterMap_append, TcpProxy.State.agents,
    List.append_right_eq_self, List.filterMap_eq_nil_iff, List.forall_mem_singleton,
    onMessage_agent, unpack_command_eq_front]

/-- A datagram with bytes in it is sent on, whatever they are. -/
theorem datagram_sent (inet : UdpProxy.Inet) (unpacker : Unpacker) (s : UdpProxy.State)
    (peer : UdpProxy.SockaddrIn) (mem : Memory) {data : List UInt8} (hd : data ≠ []) :
    ∃ t, UdpProxy.step inet unpacker s (.datagram peer mem data) = some t ∧ t.sent ≠ s.sent := by
  refine ⟨_, congrArg some (if_neg hd), ?_⟩
  have hs (s : UdpProxy.State) (cip : Text) (cport : Int32) (sip : Text) (sport : Int32) :
      (s.getAgent cip cport sip sport).1.sent = s.sent := by
    unfold UdpProxy.State.getAgent
    split
    all_goals rfl
  simp only [UdpProxy.State.forward, UdpProxy.State.sendToServer, hs]
  exact fun h => absurd (List.append_right_eq_self.mp h) (List.cons_ne_nil _ _)

/-- A chunk is guarded against if it is a request, or nothing in it reads as command zero; a
datagram only if it is a request, or empty. -/
theorem guarded_iff (inet : UdpProxy.Inet) (unpacker : Unpacker) (mem : Memory)
    (data : List UInt8) :
    (∀ s client, ∃ t, TcpProxy.step unpacker s (.message client mem data) = some t ∧
      (TcpGuarded (unpacker.objects data) s t ↔
        IsTcpRequest (unpacker.objects data) ∨ front mem (unpacker.objects data) ≠ 0)) ∧
    (∀ s peer, ∃ t, UdpProxy.step inet unpacker s (.datagram peer mem data) = some t ∧
      (UdpGuarded (unpacker.objects data) s t ↔
        IsUdpRequest (unpacker.objects data) ∨ data = [])) := by
  constructor
  · intro s client
    obtain ⟨t, ht, hs, ha⟩ := message_agents unpacker s client mem data
    exact ⟨t, ht, or_congr_right ((and_iff_left hs).trans ha)⟩
  · intro s peer
    by_cases hd : data = []
    · exact ⟨s, congrArg some (if_pos hd), iff_of_true (.inr ⟨rfl, rfl⟩) (.inr hd)⟩
    · obtain ⟨t, ht, hs⟩ := datagram_sent inet unpacker s peer mem hd
      exact ⟨t, ht, or_congr_right (iff_of_false (fun h => hs h.1) hd)⟩

/-- The single byte of integer zero makes the proxy connect, and that of nil is sent on. -/
theorem unguarded :
    let mem : Memory := ⟨0, 0, fun _ => 0, fun _ => []⟩
    (∃ t, TcpProxy.step Format.msgpack.toReader .new (.message [49] mem [0x00]) = some t ∧
      ¬ TcpGuarded (Unpacker.objects Format.msgpack.toReader [0x00]) .new t) ∧
    (∃ t, UdpProxy.step .dotted Format.msgpack.toReader .new (.datagram ⟨0, 0⟩ mem [0xc0]) =
      some t ∧ ¬ UdpGuarded (Unpacker.objects Format.msgpack.toReader [0xc0]) .new t) := by
  intro mem
  have hz : Format.msgpack.next [0x00] = (some (.positiveInteger 0), []) := by decide
  have hn : Format.msgpack.next [0xc0] = (some .nil, []) := by decide
  constructor
  · obtain ⟨t, ht, -, ha⟩ := message_agents Format.msgpack.toReader .new [49] mem [0x00]
    refine ⟨t, ht, ?_⟩
    rw [Unpacker.objects_cons hz, Unpacker.objects_nil] at ha ⊢
    rintro (hr | ⟨hs, -⟩)
    · exact hr
    · exact ha.mp hs rfl
  · obtain ⟨t, ht, hs⟩ := datagram_sent .dotted Format.msgpack.toReader .new ⟨0, 0⟩ mem
      (List.cons_ne_nil 0xc0 [])
    refine ⟨t, ht, ?_⟩
    rw [Unpacker.objects_cons hn, Unpacker.objects_nil]
    rintro (hr | ⟨h, -⟩)
    · exact hr
    · exact hs h

end AeProxy.Proxy.Requests
